import ApprovalFlow.Proofs.AcyclicWalk
import ApprovalFlow.Proofs.DecisionGate

/-!
# Answers that lead on

A queued decision that its actor answers is answered, unless a listener raises (`decideQueued_answers`), and
then the workflow that has waited for it is driven on: to its end if nothing follows (`LeadsOn.ends`), or to
the next decision, before which it waits again (`LeadsOn.waits`).
-/

namespace ApprovalFlow

open Act

variable {σ γ : Type}

structure Hooks.Shows (h : Hooks σ γ) (s : StepId) (context : γ) : Prop where
  starting : ∀ e, ((h.starting s).run e).1 = .ok ()
  present : ∀ e, ((h.present s context).run e).1 = .ok ()

namespace Engine

variable {h : Hooks σ γ} {w : WorkflowId} {m : ManagerId} {s t : StepId} {o : Outcome}
  {actor : Option Actor} {context : γ} {e e' : Engine σ}

structure Answerable (m : ManagerId) (s : StepId) (o : Outcome) (actor : Option Actor) (e : Engine σ) :
    Prop where
  queued : s ∈ (e.desk m).queue
  incomplete : (e.step s).isCompleted = false
  offered : (e.step s).offers o = true
  assigned : actor = (e.step s).actor

/-- A decision that is not completed takes what it offers. -/
theorem resolve_open (s : StepId) (o : Outcome) (e : Engine σ) :
    (resolve s o).Ends e (fun _ _ => True) (fun _ _ => ¬((e.step s).isDecision = true ∧
      (e.step s).isCompleted = false ∧ (e.step s).offers o = true)) := by
  simp only [resolve, ends_bind, ends_get, ends_failIf, ends_note]
  cases hd : (e.step s).isDecision
  case false => exact fun h => Bool.false_ne_true h.1
  cases ho : (e.step s).offers o
  case false =>
    cases (!false && !o.same .abort)
    · exact (setOutcome_ends s o e).mono (fun _ _ _ => trivial) fun _ _ _ h => Bool.false_ne_true h.2.2
    · exact fun h => Bool.false_ne_true h.2.2
  refine (setOutcome_ends s o e).mono (fun _ _ _ => trivial) fun _ _ hx h => ?_
  have hp : (e.step s).permits o = true := by
    unfold Step.permits
    rw [ho]
    rfl
  rcases hx.2 with hc | hn
  · rw [hc] at h
    exact absurd h.2.1.symm Bool.false_ne_true
  · rw [hp] at hn
    contradiction

/-- A decision that is answered through a queue gets the answer. Only a listener that raises can keep it from
being answered. -/
theorem decideQueued_answers (hq : h.Quiet) (hd : e.HasDesk m) (hs : (e.step s).isDecision = true)
    (o : Outcome) (actor : Option Actor) :
    (decideQueued h (e.manager m).queue s o actor).Ends e
      (fun _ e' => (e.step s).isCompleted = false ∧ ∃ t, e'.step s = (e.step s).given o t)
      (fun _ _ => ¬(Answerable m s o actor e ∧ h.Silent)) := by
  unfold decideQueued requireQueued
  simp only [ends_bind, ends_get]
  cases hmem : isQueued e (e.manager m).queue s
  case false =>
    have hn : s ∉ (e.desk m).queue := fun hs => by
      have hmem' : isQueued e (e.manager m).queue s = true := List.contains_iff_mem.mpr hs
      rw [hmem] at hmem'
      contradiction
    rw [Bool.not_false, if_pos rfl, ends_bind]
    exact (numberOf_ends hs).mono (fun _ _ _ ha => hn ha.1.queued) fun _ _ => False.elim
  rw [Bool.not_true, if_neg Bool.false_ne_true, ends_pure, ends_failIf]
  split
  · rename_i hactor
    exact fun ha => bne_iff_ne.mp hactor ha.1.assigned
  refine ((resolve_ends s o e).and (resolve_open s o e)).mono ?_ fun _ _ hx ha =>
    hx.2 ⟨hs, ha.1.incomplete, ha.1.offered⟩
  rintro _ e₁ ⟨⟨hc, -, t, he⟩, -⟩
  have hself : e₁.step s = (e.step s).given o t := by
    rw [step_of_core he.core, step_mapStep_self _ (hasStep_of_isDecision hs)]
  have hmanager : e₁.manager m = (e.mapStep s (·.given o t)).manager m := manager_of_core he.core m
  rw [ends_onlyIf]
  split
  · have hd₁ : e₁.HasDesk m := hd.same (congrArg Core.managers he.core) (congrArg Core.queues he.core)
    have hs₁ : (e₁.step s).isDecision = true := by
      rw [hself]
      exact (Step.isDecision_of_frame (Step.frame_given ..)).trans hs
    rw [show (e.manager m).queue = (e₁.manager m).queue from (congrArg Manager.queue hmanager).symm]
    refine (dequeue_ends hq hd₁ hs₁).mono (fun _ e₂ hf => ⟨hc, t, ?_⟩) fun _ _ hx ha => hx.2 ha.2
    rw [hf.step, hself]
  · exact ⟨hc, t, hself⟩

/-! ## A decision is put to its actor -/

theorem startStep_fresh (hf : (e.step s).Fresh) :
    (startStep s).Ends e
      (fun _ e' => e'.Alike (e.mapStep s ({ · with state := .started, startTime := e.clock.now })))
      (fun _ _ => False) := by
  have hnofail : (startStep s).Ends e (fun _ _ => True) (fun _ _ => False) := by
    simp only [startStep, ends_bind, ends_get, ends_failIf, ends_moveStep, ends_readClock,
      ends_updateStep, ends_note, hf.unstarted, hf.created]
    exact trivial
  exact ((startStep_ends s e).and hnofail).mono (fun _ _ h => h.1.2.2) fun _ _ h => h.2

theorem starting_shows (hq : h.Quiet) (s : StepId) (context : γ) (e : Engine σ) :
    (h.starting s).Ends e (fun _ e' => e'.core = e.core) (fun _ _ => ¬h.Shows s context) := by
  refine ((ends_run _ e).and ((hq.starting s).ends e)).mono (fun _ _ h => h.2) fun _ _ h hshow => ?_
  have hok := hshow.starting e
  rw [h.1] at hok
  contradiction

theorem present_shows (hq : h.Quiet) (s : StepId) (context : γ) (e : Engine σ) :
    (h.present s context).Ends e (fun _ e' => e'.core = e.core) (fun _ _ => ¬h.Shows s context) := by
  refine ((ends_run _ e).and ((hq.present s context).ends e)).mono (fun _ _ h => h.2) fun _ _ h hshow => ?_
  have hok := hshow.present e
  rw [h.1] at hok
  contradiction

/-- A decision that has an actor and has not been touched is put to the actor, and left open. -/
theorem runStep_presents (hq : h.Quiet) (hs : e.HasStep s) (hf : (e.step s).Fresh)
    (hd : (e.step s).isDecision = true) (ha : (e.step s).actor.isSome = true) :
    (runStep h w s context).Ends e (fun _ e' => (e'.step s).isCompleted = false) (fun _ _ => ¬h.Shows s context) := by
  let Open : Engine σ → Prop := fun e' => (e'.step s).isCompleted = false ∧ (e'.step s).isDecision = true
  have hstart : (start h s).Ends e (fun _ => Open) (fun _ _ => ¬h.Shows s context) := by
    unfold start
    rw [ends_bind]
    refine (starting_shows hq s context e).mono (fun _ e₁ h₁ => ?_) fun _ _ => id
    have hstep₁ : e₁.step s = e.step s := step_of_core h₁ s
    have hnone : (e.step s).actor.isNone = false := by
      rw [← Option.not_isSome, ha]
      rfl
    rw [ends_bind, ends_get, ends_bind, ends_failIf, hstep₁, hnone, Bool.and_false,
      if_neg Bool.false_ne_true]
    refine (startStep_fresh (by rw [hstep₁]; exact hf)).mono (fun _ e₂ h₂ => ?_) fun _ _ => False.elim
    have hs₁ : e₁.HasStep s := (hasStep_of_steps (congrArg Core.steps h₁) s).mpr hs
    show (e₂.step s).isCompleted = false ∧ (e₂.step s).isDecision = true
    rw [step_of_core h₂.core, step_mapStep_self _ hs₁, hstep₁]
    exact ⟨rfl, hd⟩
  have hexecute : ∀ e₁, Open e₁ →
      (execute h s context).Ends e₁ (fun o e' => o = .proceed ∧ Open e') (fun _ _ => ¬h.Shows s context) := by
    intro e₁ h₁
    unfold execute presentDecision
    rw [ends_bind, ends_get, if_pos h₁.2, ends_bind, ends_bind]
    refine (present_shows hq s context e₁).mono (fun _ e₂ h₂ => ?_) fun _ _ => id
    rw [ends_bind, ends_updateStep, ends_bind, ends_get, ends_note, ends_pure]
    refine ⟨rfl, ?_⟩
    have hbegun : ∀ f : Step → Step, (∀ st, (f st).isCompleted = st.isCompleted) →
        (∀ st, (f st).isDecision = st.isDecision) → Open (e₂.mapStep s f) := by
      intro f hc hd
      show ((e₂.mapStep s f).step s).isCompleted = false ∧ ((e₂.mapStep s f).step s).isDecision = true
      rw [step_mapStep, step_of_core h₂]
      split
      · rw [hc, hd]; exact h₁
      · exact h₁
    exact hbegun _ (fun _ => rfl) fun _ => Option.isSome_map
  unfold runStep
  rw [ends_bind, ends_get, ends_bind]
  rw [hf.unstarted, Bool.not_false, ends_onlyIf, if_pos rfl]
  refine (ends_guarding hstart fun _ _ h _ _ _ _ => h).mono (fun _ e₁ h₁ => ?_) fun _ _ => id
  rw [Bool.false_and, Bool.not_false, ends_onlyIf, if_pos rfl]
  unfold executeStep
  rw [ends_bind]
  refine (ends_guarding (hexecute e₁ h₁) fun _ _ h _ _ _ _ => h).mono ?_ fun _ _ => id
  rintro _ e₂ ⟨rfl, h₂⟩
  -- To put a decision to its actor gives it no outcome.
  rw [ends_bind, ends_get, ends_onlyIf, if_neg (by rw [Bool.and_eq_true]; exact fun h => nomatch h.2)]
  exact h₂.1

/-! ## Driving on -/

structure Heard (m : ManagerId) (w : WorkflowId) (e : Engine σ) : Prop where
  hasWorkflow : e.HasWorkflow w
  managed : (e.workflow w).Managed m
  hasDesk : e.HasDesk m
  registered : running? e m (e.workflow w).id = some w
  decisions : ∀ s ∈ (e.desk m).queue, (e.step s).isDecision = true

theorem Heard.transfer (hh : Heard m w e) (hw : e'.HasWorkflow w)
    (hl : (e'.workflow w).listeners = (e.workflow w).listeners)
    (hid : (e'.workflow w).id = (e.workflow w).id) (hm : e'.managers = e.managers)
    (hq : e'.queues = e.queues) (hd : ∀ s, (e'.step s).isDecision = (e.step s).isDecision) :
    Heard m w e' where
  hasWorkflow := hw
  managed := (managed_of_listeners hl).mpr hh.managed
  hasDesk := hh.hasDesk.same hm hq
  registered := by
    unfold running?
    rw [hid, manager_of_managers hm]
    exact hh.registered
  decisions s hs := by
    rw [hd]
    refine hh.decisions s ?_
    unfold Engine.desk at hs ⊢
    rw [manager_of_managers hm] at hs
    rw [show e.queue (e.manager m).queue = e'.queue (e.manager m).queue by
      unfold Engine.queue; rw [hq]]
    exact hs

theorem Heard.of_core (hh : Heard m w e) (hc : e'.core = e.core) : Heard m w e' :=
  hh.transfer ((hasWorkflow_of_workflows (congrArg Core.workflows hc) w).mpr hh.hasWorkflow)
    (by rw [workflow_of_core hc]) (by rw [workflow_of_core hc]) (congrArg Core.managers hc)
    (congrArg Core.queues hc) fun s => by rw [step_of_core hc]

theorem Heard.of_mapWorkflow (hh : Heard m w e) {f : Workflow → Workflow}
    (hl : (f (e.workflow w)).listeners = (e.workflow w).listeners)
    (hid : (f (e.workflow w)).id = (e.workflow w).id) : Heard m w (e.mapWorkflow w f) := by
  have hself := workflow_mapWorkflow_self f hh.hasWorkflow
  exact hh.transfer ((hasWorkflow_mapWorkflow ..).mpr hh.hasWorkflow) (by rw [hself, hl])
    (by rw [hself, hid]) rfl rfl fun _ => rfl

theorem Heard.of_worked (hh : Heard m w e) {seen : σ → List StepId} (hw : Worked seen s e e') :
    Heard m w e' :=
  hh.transfer ((hw.hasWorkflow w).mpr hh.hasWorkflow) (by rw [hw.workflow]) (by rw [hw.workflow])
    hw.managers hw.queues fun t => Step.isDecision_of_frame (hw.frame t)

namespace Heard

variable (hh : Heard m w e) (hq : h.Quiet)
include hh hq

/-- Managers take no notice of a workflow that starts or goes on. -/
theorem emit_going {kind : EventKind} (hk : kind = .started ∨ kind = .running) :
    (emit h w kind).Ends e (fun _ e' => e'.core = e.core) (fun _ _ => ¬h.Silent) := by
  refine emit_managed hq hh.managed _ (fun e₁ h₁ => ?_) fun _ _ _ hsil => hsil
  unfold manage
  rw [ends_bind, ends_get]
  split
  · exact h₁
  · rcases hk with rfl | rfl <;> exact h₁

/-- A workflow that has waited for an answer goes on when it is advanced, if listeners do not raise. -/
theorem advance_resumes {Q : WorkflowState → Engine σ → Prop} {F : Failure → Engine σ → Prop}
    (hst : (e.workflow w).state = .waiting) (hc : (e.step (e.workflow w).current).isCompleted = true)
    (hgo : ∀ e', Heard m w e' → (e'.workflow w).state = .running →
      (e'.workflow w).current = (e.workflow w).current → e'.steps = e.steps →
        (process h w context).Ends e' Q F)
    (hF : ∀ x e', ¬h.Silent → F x e') : (advance h w context).Ends e Q F := by
  refine advance_enters (fun ht => ?_) (fun _ hn => ?_) (fun hr => ?_) fun _ kind hk t e₁ h₁ => ?_
  · rw [hst] at ht; contradiction
  · rw [hc] at hn; contradiction
  · rw [hst] at hr; contradiction
  have hh₁ : Heard m w e₁ := (hh.of_mapWorkflow (f := (·.resumed t)) rfl rfl).of_core h₁.core
  have hwf₁ : e₁.workflow w = (e.workflow w).resumed t := by
    rw [workflow_of_core h₁.core, workflow_mapWorkflow_self _ hh.hasWorkflow]
  rw [ends_bind]
  refine (hh₁.emit_going hq hk).mono (fun _ e₂ h₂ => hgo e₂ (hh₁.of_core h₂) ?_ ?_ ?_) hF
  · rw [workflow_of_core h₂, hwf₁]; rfl
  · rw [workflow_of_core h₂, hwf₁]; rfl
  · exact (congrArg Core.steps h₂).trans (congrArg Core.steps h₁.core)

omit hh hq in
theorem turn_leaves {Q : Progress → Engine σ → Prop} {F : Failure → Engine σ → Prop}
    (hw : e.HasWorkflow w) (hr : (e.workflow w).state = .running)
    (hc : (e.step (e.workflow w).current).isCompleted = true)
    (H : LeaveEnds h w (e.workflow w).current e Q F) : (turn h w context).Ends e Q F := by
  unfold turn
  rw [ends_bind, ends_get, ends_bind, ends_get, ends_bind, hc, Bool.not_true, ends_onlyIf,
    if_neg Bool.false_ne_true, ends_bind, ends_get, hc, if_pos rfl]
  exact leave_ends hr hw H

section Leaving

variable (hr : (e.workflow w).state = .running)
  (hc : (e.step (e.workflow w).current).isCompleted = true)
  (ho : (e.step (e.workflow w).current).outcome.same .abort = false)
include hr hc ho

/-- If nothing follows, the workflow is completed. -/
theorem turn_completes
    (hn : (e.step (e.workflow w).current).next? (e.step (e.workflow w).current).outcome = none) :
    (turn h w context).Ends e
      (after (fun r e' => r = .completed ∧ (e'.workflow w).state = .completed) fun _ => False)
      (fun _ _ => ¬h.Silent) := by
  refine turn_leaves hh.hasWorkflow hr hc ⟨?_, ?_, ?_, ?_⟩
  · rintro state kind hclose e' he _
    have hh' : Heard m w e' := (hh.of_mapWorkflow (f := fun wf =>
      (wf.left (e.workflow w).current).ended state _) rfl rfl).of_core he.core
    cases hclose with
    | abort hab => rw [ho] at hab; contradiction
    | complete =>
      refine (emit_over hq hh'.managed hh'.hasDesk hh'.registered hh'.decisions
        (.inl ⟨_, rfl⟩)).mono (fun _ e₂ hf => ⟨rfl, ?_⟩) fun _ _ h => h.1
      rw [hf.workflow, workflow_of_core he.core, workflow_mapWorkflow_self _ hh.hasWorkflow]
      rfl
  all_goals
    intros
    simp_all

omit hq in
/-- If a fresh step follows, the workflow comes to it. -/
theorem turn_follows
    (hn : (e.step (e.workflow w).current).next? (e.step (e.workflow w).current).outcome = some t)
    (hs : e.HasStep t) (hf : (e.step t).Fresh) :
    (turn h w context).Ends e
      (after (fun _ _ => False) fun e' => Heard m w e' ∧ (e'.workflow w).state = .running ∧
        (e'.workflow w).current = t ∧ e'.HasStep t ∧ e'.step t = (e.step t).boundTo (e.workflow w))
      (fun _ _ => False) := by
  have hopen : (e.step t).isCompleted = false := by
    unfold Step.isCompleted
    rw [hf.created]
    rfl
  refine turn_leaves hh.hasWorkflow hr hc ⟨?_, ?_, ?_, ?_⟩
  · intro state kind hclose
    cases hclose with
    | abort hab => rw [ho] at hab; contradiction
    | complete _ hnone => rw [hn] at hnone; contradiction
  · intro t' ht' hct
    rw [hn] at ht'
    rw [← Option.some.inj ht', hopen] at hct
    contradiction
  · intro t' ht' _ hst
    rw [hn] at ht'
    rw [← Option.some.inj ht', hf.unstarted] at hst
    contradiction
  · intro _ t' ht' _ e' he _
    rw [hn] at ht'
    obtain rfl := Option.some.inj ht'
    have hwf := workflow_of_follows he hh.hasWorkflow
    refine ⟨hh.transfer (hasWorkflow_of_follows he hh.hasWorkflow) (by rw [hwf]; rfl) (by rw [hwf]; rfl)
      (congrArg Core.managers he.core) (congrArg Core.queues he.core) ?_, by rw [hwf]; exact hr,
      by rw [hwf]; rfl, (hasStep_of_follows he t).mpr hs, step_of_follows_self he hs⟩
    exact step_of_follows he fun _ _ => rfl

end Leaving

/-- Before a fresh decision that has an actor the workflow waits, and the decision is left open. -/
theorem turn_waits (hr : (e.workflow w).state = .running) (hs : e.HasStep (e.workflow w).current)
    (hf : (e.step (e.workflow w).current).Fresh)
    (hd : (e.step (e.workflow w).current).isDecision = true)
    (ha : (e.step (e.workflow w).current).actor.isSome = true) :
    (turn h w context).Ends e
      (after (fun r e' => r = .waiting ∧ (e'.workflow w).state = .waiting ∧
          (e'.workflow w).current = (e.workflow w).current ∧
          (e'.step (e.workflow w).current).isCompleted = false) fun _ => False)
      (fun _ _ => ¬(h.Silent ∧ h.Shows (e.workflow w).current context)) := by
  have hopen : (e.step (e.workflow w).current).isCompleted = false := by
    unfold Step.isCompleted
    rw [hf.created]
    rfl
  unfold turn
  rw [ends_bind, ends_get, ends_bind, ends_get, ends_bind, hopen, Bool.not_false, ends_onlyIf, if_pos rfl]
  refine ((runStep_presents hq hs hf hd ha).and ((runStep_worked _ hq h.logs_nil w context).ends e)).mono
    ?_ fun _ _ hx hp => hx.1 hp.2
  rintro _ e₁ ⟨hc₁, hw⟩
  have hh₁ := hh.of_worked hw
  have hwf₁ : e₁.workflow w = e.workflow w := hw.workflow w
  have hd₁ : (e₁.step (e.workflow w).current).isDecision = true :=
    (Step.isDecision_of_frame (hw.frame _)).trans hd
  rw [ends_bind, ends_get, hc₁, if_neg Bool.false_ne_true]
  -- The decision has been put to its actor and is open, so that the turn ends in a pause.
  unfold pause
  rw [ends_bind, ends_get]
  dsimp only
  rw [if_pos hd₁, ends_bind]
  refine ends_moveWorkflow .waiting (by rw [hwf₁, hr]; rfl) fun e₂ h₂ _ => ?_
  have hh₂ : Heard m w e₂ := (hh₁.of_mapWorkflow (f := ({ · with state := .waiting })) rfl rfl).of_core h₂.core
  have hwf₂ : e₂.workflow w = { e.workflow w with state := .waiting } := by
    rw [workflow_of_core h₂.core, workflow_mapWorkflow_self _ hh₁.hasWorkflow, hwf₁]
  have hstep₂ : e₂.step (e.workflow w).current = e₁.step (e.workflow w).current := step_of_core h₂.core _
  rw [ends_bind]
  refine (emit_waiting hq hh₂.managed hh₂.hasDesk hh₂.registered (by rw [hwf₂]; rfl) ?_ _).mono
    (fun _ e₃ hf₃ => ?_) fun _ _ hx hp => hx.1 hp.1
  · rw [hwf₂]
    show (e₂.step (e.workflow w).current).isDecision = true
    rw [hstep₂]
    exact hd₁
  · rw [ends_pure]
    show _ = _ ∧ (e₃.workflow w).state = .waiting ∧ (e₃.workflow w).current = (e.workflow w).current ∧
      (e₃.step (e.workflow w).current).isCompleted = false
    rw [hf₃.workflow, hf₃.step, hwf₂, hstep₂]
    exact ⟨rfl, rfl, rfl, hc₁⟩

/-! ## From the answer on -/

section Answered

variable (hst : (e.workflow w).state = .waiting)
  (hc : (e.step (e.workflow w).current).isCompleted = true)
  (ho : (e.step (e.workflow w).current).outcome.same .abort = false)
include hst hc ho

/-- After an answer that nothing follows the workflow is completed. -/
theorem advance_completes
    (hn : (e.step (e.workflow w).current).next? (e.step (e.workflow w).current).outcome = none) :
    (advance h w context).Ends e (fun r e' => r = .completed ∧ (e'.workflow w).state = .completed)
      (fun _ _ => ¬h.Silent) := by
  refine hh.advance_resumes hq hst hc (fun e₁ hh₁ hr hcur hsteps => ?_) fun _ _ h => h
  have hstep₁ : ∀ s, e₁.step s = e.step s := step_of_steps hsteps
  unfold process
  rw [ends_bind, ends_get, Nat.add_right_comm]
  refine traverse_succ_ends ?_
  refine (hh₁.turn_completes hq hr (by rw [hcur, hstep₁]; exact hc) (by rw [hcur, hstep₁]; exact ho)
    (by rw [hcur, hstep₁]; exact hn)).mono (fun progress e₂ h₂ => ?_) fun _ _ h => h
  cases progress with
  | stop state => exact h₂
  | goOn => exact h₂.elim

/-- After an answer that a fresh decision follows, the workflow waits for that one. -/
theorem advance_waits
    (hn : (e.step (e.workflow w).current).next? (e.step (e.workflow w).current).outcome = some t)
    (hs : e.HasStep t) (hf : (e.step t).Fresh) (hd : (e.step t).isDecision = true)
    (ha : (e.step t).actor.isSome = true) :
    (advance h w context).Ends e (fun r e' => r = .waiting ∧ (e'.workflow w).state = .waiting ∧
        (e'.workflow w).current = t ∧ (e'.step t).isCompleted = false)
      (fun _ _ => ¬(h.Silent ∧ h.Shows t context)) := by
  refine hh.advance_resumes hq hst hc (fun e₁ hh₁ hr hcur hsteps => ?_) fun _ _ hx hp => hx hp.1
  have hstep₁ : ∀ s, e₁.step s = e.step s := step_of_steps hsteps
  have hs₁ : e₁.HasStep t := (hasStep_of_steps hsteps t).mpr hs
  -- There are turns enough for two steps.
  obtain ⟨turns, hturns⟩ : ∃ turns, e₁.steps.size + 1 + h.room = turns + 1 + 1 :=
    ⟨e₁.steps.size - 1 + h.room, by unfold HasStep at hs₁; omega⟩
  unfold process
  rw [ends_bind, ends_get, hturns]
  refine traverse_succ_ends ((hh₁.turn_follows hr (by rw [hcur, hstep₁]; exact hc)
    (by rw [hcur, hstep₁]; exact ho) (by rw [hcur, hstep₁]; exact hn) hs₁
    (by rw [hstep₁]; exact hf)).mono (fun progress e₂ h₂ => ?_) fun _ _ => False.elim)
  cases progress with
  | stop state => exact h₂.elim
  | goOn =>
    obtain ⟨hh₂, hr₂, rfl, hs₂, hstep₂⟩ := h₂
    refine traverse_succ_ends ((hh₂.turn_waits hq hr₂ hs₂
      (by rw [hstep₂, hstep₁]; exact ⟨hf.created, hf.unstarted⟩) (by rw [hstep₂, hstep₁]; exact hd)
      (by rw [hstep₂, hstep₁]; exact ha)).mono (fun progress e₃ h₃ => ?_) fun _ _ h => h)
    cases progress with
    | stop state => exact h₃
    | goOn => exact h₃.elim

end Answered

end Heard

end Engine

end ApprovalFlow
