import ApprovalFlow.Proofs.NotPresenting
import ApprovalFlow.Proofs.Transparency

/-!
# Putting decisions to their actors

A decision that has begun has been started, so that no turn puts it to its actor again (`runStep_puts`). A
workflow waits only for decisions that have begun, and to advance it while it waits changes nothing
(`advance_idles`). A call that fails is made again, before anything else, when the workflow is advanced once
more (`advance_tries`).
-/

namespace ApprovalFlow

open Act

variable {σ γ : Type}

/-- The decision had neither begun nor been completed when it was put to its actor. -/
def Presentation.IsDue (x : Presentation) : Prop :=
  x.found.isBegun = false ∧ x.found.isCompleted = false

def Presentation.isFor (s : StepId) (x : Presentation) : Bool := x.step = s && x.returned

def Step.presented (st : Step) : Step :=
  { st with decision := st.decision.map ({ · with begun := true }) }

def Step.plain (st : Step) : Step := { st with errors := [] }

theorem Step.isPending_eq_isBegun {st : Step} (hc : st.isCompleted = false) : st.isPending = st.isBegun := by
  unfold isPending isBegun
  rw [hc]
  cases st.decision with
  | none => rfl
  | some d => exact Bool.and_true _

theorem Step.isDecision_of_isBegun {st : Step} (hb : st.isBegun = true) : st.isDecision = true := by
  unfold isBegun at hb
  unfold isDecision
  cases hd : st.decision with
  | none =>
    rw [hd] at hb
    contradiction
  | some d => rfl

theorem Step.isBegun_presented {st : Step} (hd : st.isDecision = true) : st.presented.isBegun = true := by
  unfold isDecision at hd
  obtain ⟨d, hd⟩ := Option.isSome_iff_exists.mp hd
  unfold isBegun presented
  rw [hd]
  rfl

namespace Engine

variable {h : Hooks σ γ} {log : σ → List Presentation} {w v : WorkflowId} {s t : StepId} {o : Outcome}
  {context : γ} {e e' e'' : Engine σ}

/-! ## What has been put to its actor -/

/-- The decisions know which of them have been put to their actors: those that have begun have been started,
workflows wait for none but them, and for each of them one call has returned. -/
structure Presentable (log : σ → List Presentation) (e : Engine σ) : Prop where
  timely : e.clock.Timely
  started : ∀ s, (e.step s).isBegun = true → (e.step s).isStarted = true
  waiting : ∀ w, (e.workflow w).state = .waiting → (e.step (e.workflow w).current).isBegun = true
  returned : ∀ s, (log e.host).countP (Presentation.isFor s) = if (e.step s).isBegun then 1 else 0

def Puts (log : σ → List Presentation) (p : Presentation → Prop) (e e' : Engine σ) : Prop :=
  ∃ new, log e'.host = log e.host ++ new ∧ ∀ x ∈ new, p x

/-- The workflow runs, and its step is a decision that has been started and is still to be put to its
actor. -/
structure Owes (e : Engine σ) (w : WorkflowId) (s : StepId) : Prop where
  running : (e.workflow w).state = .running
  current : (e.workflow w).current = s
  decision : (e.step s).isDecision = true
  started : (e.step s).isStarted = true
  unbegun : (e.step s).isBegun = false
  incomplete : (e.step s).isCompleted = false

structure Presented (log : σ → List Presentation) (e e' : Engine σ) : Prop where
  presentable : Presentable log e'
  puts : Puts log (fun x => x.IsDue ∧ x.returned = true) e e'

structure Thwarted (log : σ → List Presentation) (w : WorkflowId) (e e' : Engine σ) : Prop where
  presentable : Presentable log e'
  puts : Puts log (fun x => x.IsDue ∧ (x.returned = false → e'.Owes w x.step)) e e'

def Tries (log : σ → List Presentation) (s : StepId) (e e' : Engine σ) : Prop :=
  ∃ returned rest, log e'.host = log e.host ++ ⟨s, e.step s, returned⟩ :: rest

section Puts

variable {p q : Presentation → Prop}

instance : IsPreorder (Engine σ) (Puts log p) where
  refl _ := ⟨[], (List.append_nil _).symm, fun _ hx => absurd hx List.not_mem_nil⟩
  trans _ _ _ := by
    rintro ⟨new, hn, hp⟩ ⟨new', hn', hp'⟩
    refine ⟨new ++ new', by rw [hn', hn, List.append_assoc], fun c hc => ?_⟩
    exact (List.mem_append.mp hc).elim (hp c) (hp' c)

theorem Puts.mono (hc : Puts log p e e') (hpq : ∀ x, p x → q x) : Puts log q e e' := by
  obtain ⟨new, hn, hp⟩ := hc
  exact ⟨new, hn, fun c h => hpq c (hp c h)⟩

theorem puts_of_log (hl : log e'.host = log e.host) : Puts log p e e' :=
  ⟨[], hl.trans (List.append_nil _).symm, fun _ hx => absurd hx List.not_mem_nil⟩

theorem Tries.puts (ht : Tries log s e e') (hc : Puts log p e' e'') : Tries log s e e'' := by
  obtain ⟨returned, rest, hr⟩ := ht
  obtain ⟨new, hn, -⟩ := hc
  exact ⟨returned, rest ++ new, by rw [hn, hr, List.append_assoc, List.cons_append]⟩

theorem puts_one {x : Presentation} (hl : log e'.host = log e.host ++ [x]) (hx : p x) : Puts log p e e' :=
  ⟨[x], hl, fun _ hy => List.mem_singleton.mp hy ▸ hx⟩

end Puts

theorem Presentable.of_tacit (hp : Presentable log e) (ht : Tacit log e e') : Presentable log e' := by
  have hbegun : ∀ s, (e'.step s).isBegun = (e.step s).isBegun := fun s => (ht.steps s).isBegun
  refine ⟨fun n => ?_, fun s hs => ?_, fun w hw => ?_, fun s => ?_⟩
  · rw [ht.reading]
    exact hp.timely n
  · exact (ht.steps s).started (hp.started s (hbegun s ▸ hs))
  · obtain ⟨hst, hcur⟩ := ht.waiting w hw
    rw [hcur, hbegun]
    exact hp.waiting w hst
  · rw [ht.log, hbegun]
    exact hp.returned s

theorem Presentable.presented (hp : Presentable log e) (ht : Tacit log e e') : Presented log e e' :=
  ⟨hp.of_tacit ht, puts_of_log ht.log⟩

theorem Presented.trans (h₁ : Presented log e e') (h₂ : Presented log e' e'') : Presented log e e'' :=
  ⟨h₂.presentable, IsTrans.trans _ _ _ h₁.puts h₂.puts⟩

theorem Presented.tacit (h₁ : Presented log e e') (ht : Tacit log e' e'') : Presented log e e'' :=
  h₁.trans (h₁.presentable.presented ht)

theorem Presented.thwarted (h₁ : Presented log e e') : Thwarted log w e e' :=
  ⟨h₁.presentable, h₁.puts.mono fun _ hx => ⟨hx.1, fun hr => absurd (hx.2.symm.trans hr) nofun⟩⟩

theorem Presented.thwarts (h₁ : Presented log e e') (h₂ : Thwarted log w e' e'') : Thwarted log w e e'' := by
  refine ⟨h₂.presentable, IsTrans.trans _ _ _ (h₁.puts.mono fun _ hx => ?_) h₂.puts⟩
  exact ⟨hx.1, fun hr => absurd (hx.2.symm.trans hr) nofun⟩

/-! ## Running a decision -/

structure Balked (log : σ → List Presentation) (s : StepId) (e e' : Engine σ) : Prop where
  reading : e'.clock.reading = e.clock.reading
  log : log e'.host = log e.host ++ [⟨s, e.step s, false⟩]
  workflows : e'.workflows = e.workflows
  steps : ∀ t, (e'.step t).plain = (e.step t).plain

theorem Logged.log_alike {new : List Presentation} {f : Step → Step} (hl : e.Logged log new e')
    (ha : e''.Alike (e'.mapStep s f)) : log e''.host = log e.host ++ new := by
  rw [← hl.log]
  exact congrArg log ha.host

/-- A decision that has been started and not begun has begun when it has been put to its actor. -/
theorem Presentable.put (hp : Presentable log e) (hd : (e.step s).isDecision = true)
    (hs : (e.step s).isStarted = true) (hb : (e.step s).isBegun = false)
    (hl : e.Logged log [⟨s, e.step s, true⟩] e') (ha : e''.Alike (e'.mapStep s Step.presented))
    (hr : e''.clock.reading = e'.clock.reading) : Presentable log e'' ∧ (e''.step s).isBegun = true := by
  have hself : e''.step s = (e.step s).presented := by
    rw [step_of_alike ha ((hasStep_of_core hl.core s).mpr (hasStep_of_isDecision hd)), step_of_core hl.core]
  have hother : ∀ t, t ≠ s → e''.step t = e.step t := fun t ht => by
    rw [step_of_alike_of_ne ha ht, step_of_core hl.core]
  have hwf : ∀ w, e''.workflow w = e.workflow w := fun w => by
    rw [workflow_of_core ha.core, workflow_mapStep, workflow_of_core hl.core]
  have hbegun : (e''.step s).isBegun = true := hself ▸ Step.isBegun_presented hd
  refine ⟨⟨fun n => ?_, fun t ht => ?_, fun w hw => ?_, fun t => ?_⟩, hbegun⟩
  · rw [hr, hl.reading]
    exact hp.timely n
  · by_cases hts : t = s
    · rw [hts, hself]
      exact hs
    · rw [hother t hts] at ht ⊢
      exact hp.started t ht
  · rw [hwf] at hw ⊢
    by_cases hts : (e.workflow w).current = s
    · rw [hts]
      exact hbegun
    · rw [hother _ hts]
      exact hp.waiting w hw
  · rw [hl.log_alike ha, List.countP_append, hp.returned]
    by_cases hts : t = s
    · subst hts
      simp [hb, hbegun, Presentation.isFor]
    · have hne : ¬s = t := fun h => hts h.symm
      simp [hother t hts, Presentation.isFor, hne]

/-- A failed call leaves alone all of a step but what is noted of failures. -/
theorem Balked.eq_of_plain {α : Type} {f : Step → α} (hbalk : Balked log s e e')
    (hf : ∀ st, f st.plain = f st) (t : StepId) : f (e'.step t) = f (e.step t) := by
  rw [← hf, hbalk.steps t, hf]

theorem Balked.presentable (hbalk : Balked log s e e') (hp : Presentable log e) : Presentable log e' := by
  have hbegun := hbalk.eq_of_plain (f := Step.isBegun) fun _ => rfl
  have hstarted := hbalk.eq_of_plain (f := Step.isStarted) fun _ => rfl
  refine ⟨fun n => ?_, fun t ht => ?_, fun v hv => ?_, fun t => ?_⟩
  · rw [hbalk.reading]
    exact hp.timely n
  · rw [hstarted]
    exact hp.started t (hbegun t ▸ ht)
  · rw [workflow_of_workflows hbalk.workflows] at hv ⊢
    rw [hbegun]
    exact hp.waiting v hv
  · rw [hbalk.log, List.countP_append, hp.returned, hbegun]
    simp [Presentation.isFor]

/-- What the workflow owes to the actor of its step it owes still when the call has failed. -/
theorem Balked.owes (hbalk : Balked log s e e') (ho : e.Owes w s) : e'.Owes w s := by
  have hwf := workflow_of_workflows hbalk.workflows w
  exact ⟨by rw [hwf, ho.running], by rw [hwf, ho.current],
    (hbalk.eq_of_plain (f := Step.isDecision) (fun _ => rfl) s).trans ho.decision,
    (hbalk.eq_of_plain (f := Step.isStarted) (fun _ => rfl) s).trans ho.started,
    (hbalk.eq_of_plain (f := Step.isBegun) (fun _ => rfl) s).trans ho.unbegun,
    (hbalk.eq_of_plain (f := Step.isCompleted) (fun _ => rfl) s).trans ho.incomplete⟩

theorem Balked.thwarted (hbalk : Balked log s e e') (hp : Presentable log e) (ho : e.Owes w s) :
    Thwarted log w e e' :=
  ⟨hbalk.presentable hp, puts_one hbalk.log ⟨⟨ho.unbegun, ho.incomplete⟩, fun _ => hbalk.owes ho⟩⟩

section Hooked

variable (hh : h.Presents log)
include hh

/-- A decision is put to its actor, or the call fails. -/
theorem presentDecision_ends (s : StepId) (context : γ) (e : Engine σ) :
    (presentDecision h s context).Ends e
      (fun _ e' => ∃ e₁, e.Logged log [⟨s, e.step s, true⟩] e₁ ∧
        e'.Alike (e₁.mapStep s Step.presented) ∧ e'.clock.reading = e₁.clock.reading)
      (fun _ => Balked log s e) := by
  unfold presentDecision
  rw [ends_bind]
  refine (hh.present s context e).mono (fun _ e₁ h₁ => ?_) fun _ e₁ h₁ => ?_
  · rw [ends_bind, ends_updateStep, ends_bind, ends_get, ends_note]
    exact ⟨e₁, h₁, alike_aside _ _ _, rfl⟩
  · exact ⟨h₁.reading, h₁.log, congrArg Core.workflows h₁.core, fun t => by rw [step_of_core h₁.core]⟩

omit hh in
theorem guarding_balks {α : Type} {action : Act σ α} {Q : α → Engine σ → Prop}
    (ha : action.Ends e Q fun _ => Balked log s e) :
    (guarding w s action).Ends e Q fun _ => Balked log s e := by
  refine ends_guarding ha fun _ e₁ h₁ text e₂ hnoted hk => ?_
  refine ⟨(congrArg Clock.reading hk).trans h₁.reading, (congrArg log hnoted.host).trans h₁.log,
    (congrArg Core.workflows hnoted.core).trans h₁.workflows, fun t => ?_⟩
  rw [step_of_core hnoted.core, step_mapStep, ← h₁.steps t]
  split <;> rfl

/-- A decision that is due is put to its actor when it is executed, and stays incomplete then. -/
theorem executeDecision_ends (hd : (e.step s).isDecision = true) :
    (executeStep h w s context).Ends e
      (fun _ e' => ∃ e₁, e.Logged log [⟨s, e.step s, true⟩] e₁ ∧
        e'.Alike (e₁.mapStep s Step.presented) ∧ e'.clock.reading = e₁.clock.reading)
      (fun _ => Balked log s e) := by
  unfold executeStep
  rw [ends_bind]
  refine guarding_balks (Q := fun o e' => (onlyIf (!(e'.step s).isCompleted && !o.same .proceed)
    (setOutcome s o)).Ends e' _ _) ?_
  unfold execute
  rw [ends_bind, ends_get, if_pos hd, ends_bind]
  refine (presentDecision_ends hh s context e).mono (fun _ e₁ h₁ => ?_) fun _ _ h₁ => h₁
  rw [ends_pure, ends_onlyIf, if_neg (by simp [Outcome.same])]
  exact h₁

/-- When a task is executed, no decision is put to its actor. -/
theorem executeTask_ends (hd : (e.step s).isDecision = false) :
    (executeStep h w s context).Ends e (fun _ => Tacit log e) (fun _ => Tacit log e) := by
  unfold executeStep
  rw [ends_bind]
  refine guarding_tacit (Q := fun o e' => (get >>= fun e'' : Engine σ =>
    onlyIf (!(e''.step s).isCompleted && !o.same .proceed) (setOutcome s o)).Ends e' _ _) ?_
  unfold execute
  rw [ends_bind, ends_get, if_neg (by rw [hd]; exact Bool.false_ne_true)]
  refine ((hh.execute s context).ends e).mono (fun o e₁ h₁ => ?_) fun _ _ h₁ => h₁.tacit
  rw [ends_bind, ends_get]
  exact (((setOutcome_tacit s o).onlyIf _).ends e₁).after h₁.tacit

/-- A step that starts is started, where the clock does not read the instant that stands for no time. -/
theorem start_starts_timely (hk : e.clock.Timely) :
    (Engine.start h s).Ends e
      (fun _ e' => Tacit log e e' ∧ e'.workflows = e.workflows ∧ (e'.step s).isCompleted = false ∧
        (e.HasStep s → (e'.step s).isStarted = true))
      (fun _ => Tacit log e) := by
  unfold Engine.start
  rw [ends_bind]
  refine ((hh.starting s).ends e).mono (fun _ e₁ h₁ => ?_) fun _ _ h₁ => h₁.tacit
  rw [ends_bind, ends_get, ends_bind, ends_failIf]
  split
  · exact h₁.tacit
  refine ((startStep_starts s e₁).and ((startStep_tacit s).ends e₁)).mono ?_
    fun _ _ h₂ => h₁.tacit.trans h₂.2
  rintro _ e' ⟨⟨-, hcreated, ha, -⟩, ht⟩
  refine ⟨h₁.tacit.trans ht,
    (congrArg Core.workflows ha.core).trans (congrArg Core.workflows h₁.core), ?_, fun hs => ?_⟩
  · rw [step_of_core ha.core, step_mapStep]
    unfold Step.isCompleted
    split
    · rfl
    · rw [hcreated]
      rfl
  · rw [step_of_alike ha ((hasStep_of_core h₁.core s).mpr hs)]
    have hnow : e₁.clock.reading e₁.clock.taken ≠ Instant.unset := by
      rw [h₁.reading]
      exact hk _
    exact bne_iff_ne.mpr hnow

/-- A step is started before it is run, unless it has been started. -/
theorem ready_tacit (hk : e.clock.Timely) (hc : (e.step s).isCompleted = false) :
    (onlyIf (!(e.step s).isStarted) (guarding w s (Engine.start h s))).Ends e
      (fun _ e' => Tacit log e e' ∧ e'.workflows = e.workflows ∧ (e'.step s).isCompleted = false ∧
        (e.HasStep s → (e'.step s).isStarted = true))
      (fun _ => Tacit log e) := by
  rw [ends_onlyIf]
  split
  · exact guarding_tacit (start_starts_timely hh hk)
  · rename_i hs
    exact ⟨refl e, rfl, hc, fun _ => by simpa using hs⟩

/-- What a workflow owes to the actor of its step it settles when it executes the step, or owes still. -/
theorem executeStep_puts (hp : Presentable log e) (ho : e.Owes w s) :
    (executeStep h w s context).Ends e (fun _ e' => Presented log e e' ∧ (e'.step s).isBegun = true)
      (fun _ => Thwarted log w e) := by
  refine (executeDecision_ends hh ho.decision).mono ?_ fun _ _ h₁ => h₁.thwarted hp ho
  rintro _ e₂ ⟨e', hl, ha, hr⟩
  obtain ⟨hp₂, hb₂⟩ := hp.put ho.decision ho.started ho.unbegun hl ha hr
  exact ⟨⟨hp₂, puts_one (hl.log_alike ha) ⟨⟨ho.unbegun, ho.incomplete⟩, rfl⟩⟩, hb₂⟩

/-- When the current step of a running workflow is run, a decision that has begun is left alone, and another
one is put to its actor. -/
theorem runStep_puts (hp : Presentable log e) (hc : (e.step s).isCompleted = false)
    (hw : (e.workflow w).state = .running) (hcur : (e.workflow w).current = s) :
    (runStep h w s context).Ends e
      (fun _ e' => Presented log e e' ∧ ((e'.step s).isDecision = true → (e'.step s).isBegun = true))
      (fun _ => Thwarted log w e) := by
  unfold runStep
  rw [ends_bind, ends_get, ends_bind]
  refine (ready_tacit hh hp.timely hc).mono (fun _ e₁ h₁ => ?_) fun _ _ h₁ => (hp.presented h₁).thwarted
  obtain ⟨ht, hwf, hc₁, hs₁⟩ := h₁
  have hp₁ : Presented log e e₁ := hp.presented ht
  rw [ends_onlyIf, Step.isPending_eq_isBegun hc]
  cases hb : (e.step s).isBegun
  case true =>
    rw [hp.started s hb, if_neg (by decide)]
    exact ⟨hp₁, fun _ => (ht.steps s).isBegun.trans hb⟩
  case false =>
    rw [Bool.and_false, if_pos (by decide)]
    cases hd : (e.step s).isDecision
    case false =>
      have hd₁ := (ht.steps s).isDecision.trans hd
      refine (executeTask_ends hh hd₁).mono (fun _ e₂ h₂ => ⟨hp₁.tacit h₂, fun hd₂ => ?_⟩)
        fun _ _ h₂ => (hp₁.tacit h₂).thwarted
      rw [(h₂.steps s).isDecision, hd₁] at hd₂
      contradiction
    case true =>
      have hwf₁ := workflow_of_workflows hwf w
      have ho : e₁.Owes w s := ⟨by rw [hwf₁, hw], by rw [hwf₁, hcur], (ht.steps s).isDecision.trans hd,
        hs₁ (hasStep_of_isDecision hd), (ht.steps s).isBegun.trans hb, hc₁⟩
      exact (executeStep_puts hh hp₁.presentable ho).mono
        (fun _ _ h₂ => ⟨hp₁.trans h₂.1, fun _ => h₂.2⟩) fun _ _ h₂ => hp₁.thwarts h₂

/-! ## Driving -/

omit hh in
/-- A workflow may come to wait for a decision that has begun. -/
theorem Presentable.wait (hp : Presentable log e) (hb : (e.step (e.workflow w).current).isBegun = true) :
    Presented log e (e.mapWorkflow w ({ · with state := .waiting })) := by
  refine ⟨⟨hp.timely, hp.started, fun v hv => ?_, hp.returned⟩, puts_of_log rfl⟩
  show (e.step _).isBegun = true
  rw [workflow_mapWorkflow] at hv ⊢
  split at hv
  · rename_i hvw
    rwa [if_pos hvw, hvw.1]
  · rename_i hvw
    rw [if_neg hvw]
    exact hp.waiting v hv

/-- A step that is not complete is paused at, which puts no decision to its actor. -/
theorem pause_puts (hp : Presentable log e) (hcur : (e.workflow w).current = s)
    (hb : (e.step s).isDecision = true → (e.step s).isBegun = true) :
    (pause h w s).Ends e (fun progress e' => Presented log e e' ∧ progress ≠ .goOn)
      (fun _ => Presented log e) := by
  have hrefl : Presented log e e := hp.presented (refl e)
  unfold pause
  rw [ends_bind, ends_get]
  dsimp only
  split
  · rename_i hd
    rw [ends_bind]
    unfold moveWorkflow
    rw [ends_bind, ends_get, ends_bind, ends_failIf]
    split
    · exact hrefl
    have hwait := hp.wait (hcur.symm ▸ hb hd)
    rw [ends_bind, ends_updateWorkflow]
    refine (note_tacit.ends _).mono (fun _ e₁ h₁ => ?_) fun _ _ h₁ => hwait.tacit h₁
    rw [ends_bind]
    exact ((emit_tacit hh w _).ends e₁).mono (fun _ _ h₂ => ⟨(hwait.tacit h₁).tacit h₂, nofun⟩)
      fun _ _ h₂ => (hwait.tacit h₁).tacit h₂
  · exact ⟨hrefl, nofun⟩

/-- What follows the run of a step: a step that is complete is left behind, and another one is paused at. -/
theorem settle_puts (hp : Presentable log e) (hw : (e.workflow w).state = .running)
    (hcur : (e.workflow w).current = s) (hb : (e.step s).isDecision = true → (e.step s).isCompleted = false →
      (e.step s).isBegun = true) :
    (if (e.step s).isCompleted then leave h w s else pause h w s).Ends e
      (fun progress e' => Presented log e e' ∧ (progress = .goOn → (e'.workflow w).state = .running))
      (fun _ => Presented log e) := by
  split
  · exact (leave_tacit hh hw).mono (fun _ _ h₁ => ⟨hp.presented h₁.1, h₁.2⟩) fun _ _ h₁ => hp.presented h₁
  · rename_i hc
    exact (pause_puts hh hp hcur fun hd => hb hd (Bool.eq_false_iff.mpr hc)).mono
      (fun _ _ h₁ => ⟨h₁.1, fun hgo => absurd hgo h₁.2⟩) fun _ _ h₁ => h₁

/-- A turn of a running workflow. -/
theorem turn_puts (hp : Presentable log e) (hw : (e.workflow w).state = .running) :
    (turn h w context).Ends e
      (fun progress e' => Presented log e e' ∧ (progress = .goOn → (e'.workflow w).state = .running))
      (fun _ => Thwarted log w e) := by
  unfold turn
  obtain ⟨s, hcur⟩ : ∃ s, (e.workflow w).current = s := ⟨_, rfl⟩
  rw [ends_bind, ends_get, ends_bind, ends_get, ends_bind, hcur]
  have hrest : ∀ e₁, Presented log e e₁ → e₁.workflow w = e.workflow w →
      ((e₁.step s).isDecision = true → (e₁.step s).isCompleted = false → (e₁.step s).isBegun = true) →
      (if (e₁.step s).isCompleted then leave h w s else pause h w s).Ends e₁
        (fun progress e' => Presented log e e' ∧ (progress = .goOn → (e'.workflow w).state = .running))
        (fun _ => Thwarted log w e) := fun e₁ h₁ hwf hb =>
    (settle_puts hh h₁.presentable (hwf ▸ hw) (hwf ▸ hcur) hb).mono
      (fun _ _ h₂ => ⟨h₁.trans h₂.1, h₂.2⟩) fun _ _ h₂ => (h₁.trans h₂).thwarted
  rw [ends_onlyIf]
  split
  · rename_i hc
    refine ((runStep_puts hh hp (by simpa using hc) hw hcur).and
      ((runStep_worked s hh.quiet h.logs_nil w context).ends e)).mono ?_ fun _ _ h₁ => h₁.1
    rintro _ e₁ ⟨⟨h₁, hb⟩, hworked⟩
    rw [ends_bind, ends_get]
    exact hrest e₁ h₁ (hworked.workflow w) fun hd _ => hb hd
  · rename_i hc
    rw [ends_bind, ends_get]
    refine hrest e (hp.presented (refl e)) rfl fun _ hc' => ?_
    rw [hc'] at hc
    exact absurd rfl hc

/-- A traversal of a running workflow. -/
theorem traverse_puts (hp : Presentable log e) (hw : (e.workflow w).state = .running) (turns : Nat) :
    (traverse h w context turns).Ends e (fun _ => Presented log e) (fun _ => Thwarted log w e) := by
  induction turns generalizing e with
  | zero => exact (hp.presented (refl e)).thwarted
  | succ turns ih =>
    refine traverse_succ_ends ((turn_puts hh hp hw).mono (fun progress e₁ h₁ => ?_) fun _ _ h₁ => h₁)
    cases progress with
    | stop state => exact h₁.1
    | goOn =>
      exact (ih h₁.1.presentable (h₁.2 rfl)).mono (fun _ _ h₂ => h₁.1.trans h₂) fun _ _ h₂ => h₁.1.thwarts h₂

/-- To advance a workflow puts decisions to their actors that are due, and stops when such a call fails. -/
theorem advance_puts (hp : Presentable log e) (hw : e.HasWorkflow w) (context : γ) :
    (advance h w context).Ends e (fun _ => Presented log e) (fun _ => Thwarted log w e) := by
  rw [advance_eq_enter, ends_bind]
  refine (enter_runs hh hw).mono (fun go e₁ h₁ => ?_) fun _ _ h₁ => (hp.presented h₁).thwarted
  have hp₁ : Presented log e e₁ := hp.presented h₁.1
  cases go with
  | false => exact hp₁
  | true =>
    rw [if_pos rfl]
    unfold process
    rw [ends_bind, ends_get]
    exact (traverse_puts hh hp₁.presentable (h₁.2 rfl) _).mono (fun _ _ h₂ => hp₁.trans h₂)
      fun _ _ h₂ => hp₁.thwarts h₂

/-- The first turn of a workflow calls for the step to whose actor it owes something. -/
theorem turn_tries (hp : Presentable log e) (ho : e.Owes w s) :
    (turn h w context).Ends e
      (fun progress e' => Tries log s e e' ∧ Presentable log e' ∧
        (progress = .goOn → (e'.workflow w).state = .running))
      (fun _ => Tries log s e) := by
  unfold turn
  rw [ends_bind, ends_get, ends_bind, ends_get, ends_bind, ho.current, ends_onlyIf,
    if_pos (by rw [ho.incomplete]; rfl)]
  unfold runStep
  rw [ends_bind, ends_get, ends_bind, ends_onlyIf, if_neg (by rw [ho.started]; nofun), ends_onlyIf,
    if_pos (by rw [Step.isPending_eq_isBegun ho.incomplete, ho.unbegun, Bool.and_false]; rfl)]
  refine (executeDecision_ends hh ho.decision).mono ?_ fun _ e₁ h₁ => ⟨false, [], h₁.log⟩
  rintro _ e₁ ⟨e', hl, ha, hr⟩
  have htried : Tries log s e e₁ := ⟨true, [], hl.log_alike ha⟩
  obtain ⟨hp₁, hb₁⟩ := hp.put ho.decision ho.started ho.unbegun hl ha hr
  have hwf : e₁.workflow w = e.workflow w := by
    rw [workflow_of_core ha.core, workflow_mapStep, workflow_of_core hl.core]
  rw [ends_bind, ends_get]
  exact (settle_puts hh hp₁ (hwf ▸ ho.running) (hwf ▸ ho.current) fun _ _ => hb₁).mono
    (fun _ _ h₂ => ⟨htried.puts h₂.1.puts, h₂.1.presentable, h₂.2⟩) fun _ _ h₂ => htried.puts h₂.puts

/-- What a workflow owes to the actor of its step it tries to do when it is advanced, before it does anything
else. -/
theorem advance_tries (hp : Presentable log e) (ho : e.Owes w s) (context : γ) :
    (advance h w context).Ends e (fun _ => Tries log s e) (fun _ => Tries log s e) := by
  -- Whatever comes after the first turn is logged behind the call.
  have htraverse : ∀ turns, (traverse h w context (turns + 1)).Ends e (fun _ => Tries log s e)
      (fun _ => Tries log s e) := by
    intro turns
    refine traverse_succ_ends ((turn_tries hh hp ho).mono (fun progress e₁ h₁ => ?_) fun _ _ h₁ => h₁)
    obtain ⟨htried, hp₁, hrun⟩ := h₁
    cases progress with
    | stop state => exact htried
    | goOn =>
      exact (traverse_puts hh hp₁ (hrun rfl) turns).mono (fun _ _ h₂ => htried.puts h₂.puts)
        fun _ _ h₂ => htried.puts h₂.puts
  refine advance_enters (fun ht => ?_) (fun hs _ => absurd (ho.running.symm.trans hs) nofun) (fun _ => ?_)
    fun hs => ?_
  · rw [ho.running] at ht
    contradiction
  · unfold process
    rw [ends_bind, ends_get, Nat.add_right_comm]
    exact htraverse _
  · rw [ho.running] at hs
    exact absurd hs (by simp)

end Hooked

/-- To advance a workflow that waits for an answer changes nothing. -/
theorem advance_idles (hw : (e.workflow w).state = .waiting)
    (hc : (e.step (e.workflow w).current).isCompleted = false) (context : γ) :
    (advance h w context).run e = (.ok .waiting, e) := by
  have hends : (advance h w context).Ends e (fun st e' => st = .waiting ∧ e' = e) fun _ _ => False := by
    refine advance_enters (fun ht => ?_) (fun _ _ => ⟨rfl, rfl⟩) (fun hr => ?_) fun hs => ?_
    · rw [hw] at ht
      contradiction
    · rw [hw] at hr
      contradiction
    · rw [hw, hc] at hs
      simp at hs
  obtain ⟨st, e', hrun, rfl, rfl⟩ := hends.exists_ok
  exact hrun

theorem Owes.of_mapStep {f : Step → Step} (ho : e.Owes w s) (ha : e'.Alike (e.mapStep t f))
    (hf : (e.step t).Tacit (f (e.step t))) (hc : (e'.step s).isCompleted = false) : e'.Owes w s := by
  have hwf : e'.workflow w = e.workflow w := by rw [workflow_of_core ha.core, workflow_mapStep]
  have hst : (e.step s).Tacit (e'.step s) := by
    rw [step_of_core ha.core]
    exact rel_step_mapStep s f hf
  exact ⟨hwf ▸ ho.running, hwf ▸ ho.current, hst.isDecision.trans ho.decision, hst.started ho.started,
    hst.isBegun.trans ho.unbegun, hc⟩

/-- No answer settles what a workflow owes to the actor of its step but one that completes the step. -/
theorem Owes.after {op : Operation σ γ} (ho : e.Owes w s)
    (hop : (∃ t o, op = .resolve t o) ∨ ∃ t actor, op = .reassign t actor)
    (hc : ((next h e op).step s).isCompleted = false) : (next h e op).Owes w s := by
  rcases hop with ⟨t, o, rfl⟩ | ⟨t, actor, rfl⟩
  · refine (Act.Ends.state (P := fun e' => (e'.step s).isCompleted = false → e'.Owes w s)
      ((resolve_ends t o e).mono ?_ ?_)) hc
    · rintro _ e' ⟨-, -, _, ha⟩ hc
      exact ho.of_mapStep ha (Step.tacit_given ..) hc
    · rintro _ _ rfl _
      exact ho
  · refine (Act.Ends.state (P := fun e' => (e'.step s).isCompleted = false → e'.Owes w s)
      ((reassign_ends t actor e).mono ?_ ?_)) hc
    · exact fun _ e' ha hc => ho.of_mapStep ha ⟨rfl, id⟩ hc
    · rintro _ _ rfl _
      exact ho

end Engine

end ApprovalFlow
