import ApprovalFlow.Proofs.StepTrails

/-!
# What puts no decision to its actor

Hooks log each call that puts a decision to its actor. All that is done with an engine but to run the step of
a workflow and to wait for it is tacit: no decision is put to its actor, what was started stays started, and
no workflow comes to wait.
-/

namespace ApprovalFlow

open Act

variable {σ γ : Type}

/-- A call that puts a decision to its actor: how it found the decision, and whether it returned. -/
structure Presentation where
  step : StepId
  found : Step
  returned : Bool

def Step.isBegun (st : Step) : Bool := st.decision.any (·.begun)

/-- A hook has logged `new`, and has called no operation of the engine. -/
structure Engine.Logged (log : σ → List Presentation) (new : List Presentation) (e e' : Engine σ) : Prop where
  core : e'.core = e.core
  reading : e'.clock.reading = e.clock.reading
  log : log e'.host = log e.host ++ new

/-- Hooks that call no operation of the engine, and log each call that puts a decision to its actor. -/
structure Hooks.Presents (h : Hooks σ γ) (log : σ → List Presentation) : Prop where
  starting : ∀ s, (h.starting s).Always (Engine.Logged log [])
  execute : ∀ s context, (h.execute s context).Always (Engine.Logged log [])
  present : ∀ s context (e : Engine σ), (h.present s context).Ends e
    (fun _ => e.Logged log [⟨s, e.step s, true⟩]) fun _ => e.Logged log [⟨s, e.step s, false⟩]
  observe : ∀ l event, (h.observe l event).Always (Engine.Logged log [])

theorem Hooks.Presents.quiet {h : Hooks σ γ} {log : σ → List Presentation} (hh : h.Presents log) :
    h.Quiet where
  starting s := (hh.starting s).mono Engine.Logged.core
  execute s context := (hh.execute s context).mono Engine.Logged.core
  present s context := always_of_ends fun e =>
    (hh.present s context e).mono (fun _ _ hl => hl.core) fun _ _ hl => hl.core
  observe l event := (hh.observe l event).mono Engine.Logged.core

structure Step.Tacit (a b : Step) : Prop where
  decision : b.decision = a.decision
  started : a.isStarted = true → b.isStarted = true

instance : IsPreorder Step Step.Tacit where
  refl _ := ⟨rfl, id⟩
  trans _ _ _ h h' := ⟨h'.decision.trans h.decision, fun hs => h'.started (h.started hs)⟩

theorem Step.Tacit.isBegun {a b : Step} (ht : a.Tacit b) : b.isBegun = a.isBegun := by
  unfold Step.isBegun
  rw [ht.decision]

theorem Step.Tacit.isDecision {a b : Step} (ht : a.Tacit b) : b.isDecision = a.isDecision := by
  unfold Step.isDecision
  rw [ht.decision]

theorem Step.tacit_given (st : Step) (o : Outcome) (now : Instant) : st.Tacit (st.given o now) := by
  unfold given
  split <;> exact ⟨rfl, id⟩

namespace Engine

open Logging (Level)

variable {h : Hooks σ γ} {log : σ → List Presentation} {w v : WorkflowId} {s t : StepId} {o : Outcome}
  {context : γ} {e e' e'' : Engine σ}

/-- No decision has been put to its actor, what was started is started, and no workflow has come to wait or
has gone on to another step while it waits. -/
structure Tacit (log : σ → List Presentation) (e e' : Engine σ) : Prop where
  reading : e'.clock.reading = e.clock.reading
  log : log e'.host = log e.host
  steps : ∀ s, (e.step s).Tacit (e'.step s)
  waiting : ∀ w, (e'.workflow w).state = .waiting →
    (e.workflow w).state = .waiting ∧ (e'.workflow w).current = (e.workflow w).current

instance : IsPreorder (Engine σ) (Tacit log) where
  refl _ := ⟨rfl, rfl, fun _ => refl _, fun _ hw => ⟨hw, rfl⟩⟩
  trans _ _ _ h h' :=
    { reading := h'.reading.trans h.reading
      log := h'.log.trans h.log
      steps := fun s => IsTrans.trans _ _ _ (h.steps s) (h'.steps s)
      waiting := fun w hw =>
        have h₁ := h'.waiting w hw
        have h₂ := h.waiting w h₁.1
        ⟨h₂.1, h₁.2.trans h₂.2⟩ }

theorem Tacit.trans (h₁ : Tacit log e e') (h₂ : Tacit log e' e'') : Tacit log e e'' :=
  IsTrans.trans _ _ _ h₁ h₂

theorem tacit_of_same (hs : e'.steps = e.steps) (hw : e'.workflows = e.workflows)
    (hr : e'.clock.reading = e.clock.reading) (hh : log e'.host = log e.host) : Tacit log e e' where
  reading := hr
  log := hh
  steps s := by
    rw [step_of_steps hs]
    exact refl _
  waiting w := by
    rw [workflow_of_workflows hw]
    exact fun hst => ⟨hst, rfl⟩

theorem tacit_off (hs : e'.steps = e.steps) (hw : e'.workflows = e.workflows) (_ : e'.contexts = e.contexts)
    (hh : e'.host = e.host) (hk : e'.clock = e.clock) : Tacit log e e' :=
  tacit_of_same hs hw (by rw [hk]) (by rw [hh])

theorem Logged.tacit (hl : Logged log [] e e') : Tacit log e e' :=
  tacit_of_same (congrArg Core.steps hl.core) (congrArg Core.workflows hl.core) hl.reading
    (hl.log.trans (List.append_nil _))

theorem tacit_mapStep {f : Step → Step} (ha : e'.Alike (e.mapStep s f))
    (hr : e'.clock.reading = e.clock.reading) (hf : (e.step s).Tacit (f (e.step s))) : Tacit log e e' where
  reading := hr
  log := congrArg log ha.host
  steps t := by
    rw [step_of_core ha.core]
    exact rel_step_mapStep t f hf
  waiting w := by
    rw [workflow_of_core ha.core]
    exact fun hst => ⟨hst, rfl⟩

theorem tacit_mapWorkflow {f : Workflow → Workflow}
    (hf : (f (e.workflow w)).state = .waiting →
      (e.workflow w).state = .waiting ∧ (f (e.workflow w)).current = (e.workflow w).current) :
    Tacit log e (e.mapWorkflow w f) where
  reading := rfl
  log := rfl
  steps _ := refl _
  waiting v := by
    rw [workflow_mapWorkflow]
    split
    · rename_i hv
      rw [hv.1]
      exact hf
    · exact fun hst => ⟨hst, rfl⟩

theorem note_tacit {logger : String} {level : Level} {text : String} {extras : Entries String Value} :
    (note logger level text extras : Act σ Unit).Always (Tacit log) := always_note tacit_off

theorem readClock_tacit : (readClock : Act σ Instant).Always (Tacit log) :=
  always_modifyGet fun _ => tacit_of_same rfl rfl rfl rfl

theorem updateWorkflow_tacit {f : Workflow → Workflow}
    (hf : ∀ wf : Workflow, (f wf).state = .waiting → wf.state = .waiting ∧ (f wf).current = wf.current) :
    (updateWorkflow w f : Act σ Unit).Always (Tacit log) := always_modify fun _ => tacit_mapWorkflow (hf _)

theorem startStep_tacit (s : StepId) : (startStep s : Act σ Unit).Always (Tacit log) := by
  refine always_of_ends fun e => (startStep_starts s e).mono ?_ ?_
  · rintro _ e' ⟨hs, -, ha, hr⟩
    exact tacit_mapStep ha hr.reading ⟨rfl, fun hst => absurd (hs.symm.trans hst) Bool.false_ne_true⟩
  · rintro _ _ rfl
    exact refl _

theorem setOutcome_tacit (s : StepId) (o : Outcome) : (setOutcome s o : Act σ Unit).Always (Tacit log) := by
  refine always_of_ends fun e => (setOutcome_gives s o e).mono ?_ ?_
  · rintro _ e' ⟨-, ha, hr⟩
    exact tacit_mapStep ha hr.reading (Step.tacit_given ..)
  · rintro _ _ ⟨rfl, -⟩
    exact refl _

theorem reassign_tacit (s : StepId) (actor : Option Actor) :
    (Engine.reassign s actor : Act σ Unit).Always (Tacit log) := by
  refine always_of_ends fun e => (reassign_gives s actor e).mono ?_ ?_
  · rintro _ e' ⟨-, ha, hr⟩
    exact tacit_mapStep ha hr.reading ⟨rfl, id⟩
  · rintro _ _ rfl
    exact refl _

theorem resolve_tacit (s : StepId) (o : Outcome) : (resolve s o : Act σ Unit).Always (Tacit log) :=
  always_get.bind fun _ => (always_failIf _ _).bind fun _ => (always_failIf _ _).bind fun _ =>
    (setOutcome_tacit s o).bind fun _ => note_tacit

/-- To note a failure puts no decision to its actor. -/
theorem guarding_tacit {α : Type} {action : Act σ α} {Q : α → Engine σ → Prop}
    (ha : action.Ends e Q fun _ => Tacit log e) : (guarding w s action).Ends e Q fun _ => Tacit log e :=
  ends_guarding ha fun _ _ h₁ _ _ hnoted hk =>
    h₁.trans (tacit_mapStep hnoted (congrArg Clock.reading hk) ⟨rfl, id⟩)

theorem moveWorkflow_tacit {next : WorkflowState} (hn : next ≠ .waiting) :
    (moveWorkflow w next : Act σ Unit).Always (Tacit log) :=
  always_get.bind fun _ => (always_failIf _ _).bind fun _ =>
    Always.bind (updateWorkflow_tacit fun _ hst => absurd hst hn) fun _ => note_tacit

theorem record_tacit : (record w s : Act σ Unit).Always (Tacit log) :=
  updateWorkflow_tacit fun _ hst => ⟨hst, rfl⟩

/-- A running workflow goes on to a step, and runs on. -/
theorem follow_tacit (hw : (e.workflow w).state = .running) :
    (follow w s t o).Ends e (fun _ e' => Tacit log e e' ∧ (e'.workflow w).state = .running)
      (fun _ => Tacit log e) := by
  refine (follow_moves w s t o e).mono ?_ ?_
  · rintro _ e' ⟨ha, hr⟩
    have hrun : (e'.workflow w).state = .running := by
      rw [workflow_of_core ha.core]
      exact (workflow_mapWorkflow_eq (g := Workflow.state) rfl w).trans hw
    obtain ⟨e₁, he₁⟩ : ∃ e₁, e₁ = e.mapStep t (·.boundTo (e.workflow w)) := ⟨_, rfl⟩
    rw [← he₁] at ha
    have h₁ : Tacit log e e₁ := he₁ ▸ tacit_mapStep (alike_refl _) rfl ⟨rfl, id⟩
    have h₂ : Tacit log e₁ (e₁.mapWorkflow w (·.moved s t)) := tacit_mapWorkflow fun hst => by
      rw [he₁] at hst
      exact absurd (hw.symm.trans hst) nofun
    have h₃ : Tacit log (e₁.mapWorkflow w (·.moved s t)) e' := by
      refine tacit_of_same (congrArg Core.steps ha.core) (congrArg Core.workflows ha.core) ?_
        (congrArg log ha.host)
      rw [hr.reading, he₁]
      rfl
    exact ⟨(h₁.trans h₂).trans h₃, hrun⟩
  · rintro _ _ rfl
    exact refl _

section Hooked

variable (hh : h.Presents log)
include hh

theorem start_tacit (s : StepId) : (Engine.start h s).Always (Tacit log) :=
  ((hh.starting s).mono Logged.tacit).bind fun _ => always_get.bind fun _ =>
    (always_failIf _ _).bind fun _ => startStep_tacit s

theorem emit_tacit (w : WorkflowId) (kind : EventKind) : (emit h w kind).Always (Tacit log) :=
  always_emit tacit_off (fun l event => (hh.observe l event).mono Logged.tacit) w kind

theorem finish_tacit (next : WorkflowState) (hn : next ≠ .waiting) (kind : EventKind) :
    (finish h w next kind).Always (Tacit log) :=
  (moveWorkflow_tacit hn).bind fun _ => readClock_tacit.bind fun _ =>
    Always.bind (updateWorkflow_tacit fun _ hst => ⟨hst, rfl⟩) fun _ => emit_tacit hh w kind

theorem abort_tacit (w : WorkflowId) : (abort h w).Always (Tacit log) :=
  always_get.bind fun _ => (always_failIf _ _).bind fun _ => ((setOutcome_tacit _ _).onlyIf _).bind fun _ =>
    (record_tacit.onlyIf _).bind fun _ => finish_tacit hh .aborted nofun _

/-- A running workflow leaves a step behind. If it goes on, it runs on. -/
theorem leave_tacit (hw : (e.workflow w).state = .running) :
    (leave h w s).Ends e
      (fun progress e' => Tacit log e e' ∧ (progress = .goOn → (e'.workflow w).state = .running))
      (fun _ => Tacit log e) := by
  unfold leave
  rw [ends_bind]
  obtain ⟨e₁, he₁⟩ : ∃ e₁, e₁ = e.mapWorkflow w (·.left s) := ⟨_, rfl⟩
  have h₁ : Tacit log e e₁ := he₁ ▸ tacit_mapWorkflow fun hst => ⟨hst, rfl⟩
  have hw₁ : (e₁.workflow w).state = .running := by
    rw [he₁]
    exact (workflow_mapWorkflow_eq (g := Workflow.state) rfl w).trans hw
  have hends : ∀ next kind, next ≠ .waiting → (finish h w next kind >>= fun _ =>
      (Pure.pure (Progress.stop next) : Act σ Progress)).Ends e₁ (fun progress e' => Tacit log e e' ∧
        (progress = .goOn → (e'.workflow w).state = .running)) (fun _ => Tacit log e) := by
    intro next kind hn
    rw [ends_bind]
    exact ((finish_tacit hh next hn kind).ends e₁).mono
      (fun _ _ h₂ => ⟨h₁.trans h₂, nofun⟩) fun _ _ h₂ => h₁.trans h₂
  show Ends _ (e.mapWorkflow w (·.left s)) _ _
  rw [← he₁, ends_bind, ends_get]
  dsimp only
  split
  · exact hends .aborted _ nofun
  split
  · exact hends .completed _ nofun
  · rw [ends_bind]
    exact (follow_tacit hw₁).mono (fun _ _ h₂ => ⟨h₁.trans h₂.1, fun _ => h₂.2⟩) fun _ _ h₂ => h₁.trans h₂

omit hh in
theorem moveWorkflow_runs (hw : e.HasWorkflow w) :
    (moveWorkflow w .running).Ends e
      (fun _ e' => Tacit log e e' ∧ e'.HasWorkflow w ∧ (e'.workflow w).state = .running)
      (fun _ => Tacit log e) := by
  have hrun : ∀ j c, (((e.mapWorkflow w ({ · with state := .running })).aside j c).workflow w).state =
      .running := fun _ _ => congrArg Workflow.state (workflow_mapWorkflow_self _ hw)
  have hhas : (e.mapWorkflow w ({ · with state := .running })).HasWorkflow w :=
    (hasWorkflow_mapWorkflow ..).mpr hw
  have htacit : Tacit log e (e.mapWorkflow w ({ · with state := .running })) := tacit_mapWorkflow nofun
  unfold moveWorkflow
  rw [ends_bind, ends_get, ends_bind, ends_failIf]
  split
  · exact refl e
  · rw [ends_bind, ends_updateWorkflow, ends_note]
    exact ⟨htacit.trans (tacit_of_same rfl rfl rfl rfl), hhas, hrun _ _⟩

/-- Telling the listeners of a running workflow. -/
theorem emit_runs (hw : (e.workflow w).state = .running) (kind : EventKind) :
    (emit h w kind >>= fun _ => Pure.pure true).Ends e
      (fun go e' => Tacit log e e' ∧ (go = true → (e'.workflow w).state = .running))
      (fun _ => Tacit log e) := by
  rw [ends_bind]
  refine (((emit_tacit hh w kind).ends e).and ((emit_told hh.quiet h.logs_nil w kind).ends e)).mono
    (fun _ e₁ h₁ => ⟨h₁.1, fun _ => ?_⟩) fun _ _ h₁ => h₁.1
  rw [workflow_of_workflows h₁.2.workflows]
  exact hw

/-- Before the first turn the workflow is set running. -/
theorem enter_runs (hw : e.HasWorkflow w) :
    (enter h w).Ends e (fun go e' => Tacit log e e' ∧ (go = true → (e'.workflow w).state = .running))
      (fun _ => Tacit log e) := by
  unfold enter
  rw [ends_bind, ends_get, ends_bind, ends_failIf]
  split
  · exact refl e
  rename_i hlive
  cases hst : (e.workflow w).state with
  | completed | aborted =>
    rw [hst] at hlive
    exact absurd rfl hlive
  | running => exact ⟨refl e, fun _ => hst⟩
  | waiting =>
    dsimp only
    split
    · rw [ends_bind]
      refine (moveWorkflow_runs hw).mono (fun _ e₁ h₁ => ?_) fun _ _ h₁ => h₁
      exact (emit_runs hh h₁.2.2 _).mono (fun _ _ h₂ => ⟨h₁.1.trans h₂.1, h₂.2⟩) fun _ _ h₂ =>
        h₁.1.trans h₂
    · exact ⟨refl e, nofun⟩
  | created =>
    dsimp only
    rw [ends_bind]
    refine (moveWorkflow_runs hw).mono (fun _ e₁ h₁ => ?_) fun _ _ h₁ => h₁
    rw [ends_bind, ends_readClock, ends_bind, ends_updateWorkflow]
    obtain ⟨e₂, he₂⟩ : ∃ e₂, e₂ = (e₁.aside e₁.journal e₁.clock.tick).mapWorkflow w
      ({ · with startTime := e₁.clock.now }) := ⟨_, rfl⟩
    have htick : Tacit log e₁ (e₁.aside e₁.journal e₁.clock.tick) := tacit_of_same rfl rfl rfl rfl
    have h₂ : Tacit log e₁ e₂ :=
      htick.trans (he₂ ▸ tacit_mapWorkflow fun hst => ⟨hst, rfl⟩)
    have hrun : (e₂.workflow w).state = .running := by
      rw [he₂]
      exact (workflow_mapWorkflow_eq (g := Workflow.state) rfl w).trans h₁.2.2
    rw [← he₂]
    have h₁₂ : Tacit log e e₂ := h₁.1.trans h₂
    exact (emit_runs hh hrun _).mono (fun _ _ h₃ => ⟨h₁₂.trans h₃.1, h₃.2⟩) fun _ _ h₃ =>
      h₁₂.trans h₃

end Hooked

end Engine

end ApprovalFlow
