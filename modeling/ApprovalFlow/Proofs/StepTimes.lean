import ApprovalFlow.Proofs.Presenting
import Mathlib.Data.Int.Order.Basic

/-!
# The times of steps

The clock is steady if it never goes back, and hooks keep time if they leave it to itself. The times that a
step notes are then in order whatever is done with it (`Step.Timed`). A step that is run has not started
before its turn came, and it has started before it is completed (`runStep_attends`).
-/

namespace ApprovalFlow

open Act

variable {σ γ : Type}

/-- The readings never go back, and none is the instant that stands for "not set". -/
structure Clock.Steady (c : Clock) : Prop where
  monotone : ∀ {m n : Nat}, m ≤ n → c.reading m ≤ c.reading n
  timely : c.Timely

/-- The hooks may read the clock, but they neither set it nor put it back. -/
structure Hooks.KeepsTime (h : Hooks σ γ) : Prop where
  starting : ∀ s, (h.starting s).Always fun e e' => e.clock.GoesOn e'.clock
  execute : ∀ s context, (h.execute s context).Always fun e e' => e.clock.GoesOn e'.clock
  present : ∀ s context, (h.present s context).Always fun e e' => e.clock.GoesOn e'.clock
  observe : ∀ l event, (h.observe l event).Always fun e e' => e.clock.GoesOn e'.clock

namespace Clock

variable {c c' : Clock}

theorem Steady.of_goesOn (hs : c.Steady) (hg : c.GoesOn c') : c'.Steady := by
  refine ⟨?_, fun n => ?_⟩
  · rw [hg.reading]
    exact hs.monotone
  · rw [hg.reading]
    exact hs.timely n

theorem Steady.now_le (hs : c.Steady) (hg : c.GoesOn c') : c.now ≤ c'.now := by
  unfold now
  rw [hg.reading]
  exact hs.monotone hg.taken

end Clock

namespace Step

structure Timed (now : Instant) (st : Step) : Prop where
  started : st.isStarted = true → st.startTime ≤ now
  completed : st.isCompleted = true → st.endTime ≤ now
  ordered : st.isCompleted = true → st.isStarted = true → st.startTime ≤ st.endTime
  begun : st.isBegun = true → st.isStarted = true

/-- The step has started when it had, or has not started before `now`. -/
structure StartsFrom (now : Instant) (a b : Step) : Prop where
  kept : a.isStarted = true → b.startTime = a.startTime
  since : a.isStarted = false → b.isStarted = true → now ≤ b.startTime

structure Abreast (a b : Step) : Prop where
  state : b.state = a.state
  startTime : b.startTime = a.startTime
  endTime : b.endTime = a.endTime
  begun : b.isBegun = a.isBegun

variable {now now' : Instant} {a b c st : Step}

instance : Std.Refl Abreast where
  refl _ := ⟨rfl, rfl, rfl, rfl⟩

theorem Abreast.isStarted (h : Abreast a b) : b.isStarted = a.isStarted :=
  isStarted_of_startTime h.startTime

theorem Abreast.isCompleted (h : Abreast a b) : b.isCompleted = a.isCompleted := by
  unfold Step.isCompleted
  rw [h.state]

theorem Timed.mono (ht : st.Timed now) (hn : now ≤ now') : st.Timed now' :=
  ⟨fun hs => (ht.started hs).trans hn, fun hc => (ht.completed hc).trans hn, ht.ordered, ht.begun⟩

theorem Timed.of_abreast (ht : a.Timed now) (h : Abreast a b) : b.Timed now := by
  refine ⟨?_, ?_, ?_, ?_⟩
  all_goals simp only [h.isStarted, h.isCompleted, h.startTime, h.endTime, h.begun]
  · exact ht.started
  · exact ht.completed
  · exact ht.ordered
  · exact ht.begun

theorem Abreast.startsFrom (h : Abreast a b) : StartsFrom now a b where
  kept _ := h.startTime
  since hn hs := absurd (hn.symm.trans (h.isStarted.symm.trans hs)) Bool.false_ne_true

/-- A step that starts later still starts from `now` on. -/
theorem StartsFrom.trans (h : StartsFrom now a b) (hn : now ≤ now') (h' : StartsFrom now' b c) :
    StartsFrom now a c := by
  have kept : b.isStarted = true → c.startTime = b.startTime := h'.kept
  refine ⟨fun ha => ?_, fun ha hc => ?_⟩
  · exact (kept ((isStarted_of_startTime (h.kept ha)).trans ha)).trans (h.kept ha)
  · cases hb : b.isStarted
    case true =>
      rw [kept hb]
      exact h.since ha hb
    case false => exact hn.trans (h'.since hb hc)

/-- To start now leaves the times in order. -/
theorem Timed.start (ht : st.Timed now) (hs : st.isStarted = false) :
    ({ st with state := .started, startTime := now } : Step).Timed now where
  started _ := le_refl now
  completed hc := absurd hc nofun
  ordered hc := absurd hc nofun
  begun hb := absurd (hs.symm.trans (ht.begun hb)) Bool.false_ne_true

/-- To be given an outcome now leaves the times in order. -/
theorem Timed.given (ht : st.Timed now) (hc : st.isCompleted = false) (o : Outcome) :
    (st.given o now).Timed now := by
  unfold Step.given
  split
  · exact ⟨ht.started, fun _ => le_refl now, fun _ => ht.started, ht.begun⟩
  · exact ⟨ht.started, fun h => absurd (hc.symm.trans h) Bool.false_ne_true,
      fun h => absurd (hc.symm.trans h) Bool.false_ne_true, ht.begun⟩

theorem Timed.presented (ht : st.Timed now) (hs : st.isStarted = true) : st.presented.Timed now :=
  ⟨ht.started, ht.completed, ht.ordered, fun _ => hs⟩

theorem startsFrom_of_startTime (h : b.startTime = a.startTime) : StartsFrom now a b where
  kept _ := h
  since hn hs := absurd (hn.symm.trans ((isStarted_of_startTime h).symm.trans hs)) Bool.false_ne_true

end Step

namespace Engine

variable {h : Hooks σ γ} {w : WorkflowId} {s : StepId} {context : γ} {e e₁ e₂ : Engine σ}

structure Elapsed (e e' : Engine σ) : Prop where
  steps : e'.steps = e.steps
  workflows : e'.workflows = e.workflows
  clock : e.clock.GoesOn e'.clock

instance : IsPreorder (Engine σ) Elapsed where
  refl _ := ⟨rfl, rfl, refl _⟩
  trans _ _ _ h h' :=
    ⟨h'.steps.trans h.steps, h'.workflows.trans h.workflows, IsTrans.trans _ _ _ h.clock h'.clock⟩

theorem elapsed_of_core (hc : e₁.core = e.core) (hg : e.clock.GoesOn e₁.clock) : Elapsed e e₁ :=
  ⟨congrArg Core.steps hc, congrArg Core.workflows hc, hg⟩

/-- Telling the listeners of a workflow takes time at most. -/
theorem emit_elapses (hq : h.Quiet) (ht : h.KeepsTime) (w : WorkflowId) (kind : EventKind) :
    (emit h w kind).Always Elapsed := by
  refine always_emit (fun hs hw _ _ hk => ⟨hs, hw, hk ▸ refl _⟩) (fun l event e => ?_) w kind
  exact elapsed_of_core (hq.observe l event e) (ht.observe l event e)

theorem hasStep_of_isStarted (hs : (e.step s).isStarted = true) : e.HasStep s := by
  apply Classical.byContradiction
  intro hn
  rw [step_of_not_hasStep hn] at hs
  contradiction

/-! ## Running a step -/

/-- The step `s` has been attended to: its times are in order as ever, it has not started before, and it has
started before it was completed. -/
structure Attended (s : StepId) (e e' : Engine σ) : Prop where
  clock : e.clock.GoesOn e'.clock
  timed : (e'.step s).Timed e'.clock.now
  starts : Step.StartsFrom e.clock.now (e.step s) (e'.step s)
  earned : (e'.step s).isCompleted = true → (e'.step s).isStarted = true

section Running

variable (hsteady : e.clock.Steady)
include hsteady

theorem Attended.change (ha : Attended s e e₁) (hg : e₁.clock.GoesOn e₂.clock)
    (ht : (e₂.step s).Timed e₁.clock.now)
    (hst : Step.StartsFrom e₁.clock.now (e₁.step s) (e₂.step s))
    (hearned : (e₂.step s).isCompleted = true → (e₂.step s).isStarted = true) : Attended s e e₂ where
  clock := IsTrans.trans _ _ _ ha.clock hg
  timed := ht.mono ((hsteady.of_goesOn ha.clock).now_le hg)
  starts := ha.starts.trans (hsteady.now_le ha.clock) hst
  earned := hearned

theorem Attended.abreast (ha : Attended s e e₁) (hg : e₁.clock.GoesOn e₂.clock)
    (hs : Step.Abreast (e₁.step s) (e₂.step s)) : Attended s e e₂ := by
  refine ha.change hsteady hg (ha.timed.of_abreast hs) hs.startsFrom ?_
  rw [hs.isCompleted, hs.isStarted]
  exact ha.earned

theorem Attended.elapsed (ha : Attended s e e₁) (h : Elapsed e₁ e₂) : Attended s e e₂ :=
  ha.abreast hsteady h.clock (by rw [step_of_steps h.steps]; exact refl _)

/-- What is noted of a failure does not touch the times. -/
theorem guarding_attends {α : Type} {m : Act σ α} {Q : α → Engine σ → Prop}
    (hm : m.Ends e₁ Q fun _ => Attended s e) : (guarding w s m).Ends e₁ Q fun _ => Attended s e := by
  refine ends_guarding hm fun _ e₂ h₂ text e₃ hnoted hk => ?_
  refine h₂.abreast hsteady (hk ▸ refl _) ?_
  rw [step_of_core hnoted.core]
  exact rel_step_mapStep s _ ⟨rfl, rfl, rfl, rfl⟩

section Hooked

variable (hq : h.Quiet) (ht : h.KeepsTime)
include hq ht

/-- An incomplete step that is started has started since. -/
theorem start_attends (hs : e.HasStep s) (htimed : (e.step s).Timed e.clock.now)
    (hc : (e.step s).isCompleted = false) :
    (Engine.start h s).Ends e (fun _ e' => Attended s e e' ∧ (e'.step s).isStarted = true)
      (fun _ => Attended s e) := by
  have hearned : (e.step s).isCompleted = true → (e.step s).isStarted = true := fun h =>
    absurd (hc.symm.trans h) Bool.false_ne_true
  have hrefl : Attended s e e := ⟨refl _, htimed, Step.startsFrom_of_startTime rfl, hearned⟩
  have helapsed : ∀ e₁, e₁.core = e.core → e.clock.GoesOn e₁.clock → Attended s e e₁ :=
    fun e₁ hcore hg => hrefl.elapsed hsteady (elapsed_of_core hcore hg)
  unfold Engine.start
  rw [ends_bind]
  refine (((hq.starting s).ends e).and ((ht.starting s).ends e)).mono (fun _ e₁ h₁ => ?_)
    fun _ e₁ h₁ => helapsed e₁ h₁.1 h₁.2
  have ha₁ := helapsed e₁ h₁.1 h₁.2
  rw [ends_bind, ends_get, ends_bind, ends_failIf]
  split
  · exact ha₁
  refine (startStep_starts s e₁).mono ?_ ?_
  · rintro _ e₂ ⟨hn, -, ha, hg⟩
    have hstep : e₂.step s = { e₁.step s with state := .started, startTime := e₁.clock.now } :=
      step_of_alike ha ((hasStep_of_core h₁.1 s).mpr hs)
    -- The clock does not read the instant that stands for "not set".
    have hstarted : (e₂.step s).isStarted = true := by
      rw [hstep]
      exact bne_iff_ne.mpr ((hsteady.of_goesOn ha₁.clock).timely _)
    refine ⟨ha₁.change hsteady hg ?_ ⟨fun h => ?_, fun _ _ => ?_⟩ fun _ => hstarted, hstarted⟩
    · rw [hstep]
      exact ha₁.timed.start hn
    · exact absurd (hn.symm.trans h) Bool.false_ne_true
    · rw [hstep]
  · rintro _ _ rfl
    exact ha₁

omit hq ht in
/-- A step that has started gets its outcome after its start. -/
theorem setOutcome_attends (ha : Attended s e e₁) (hs : (e₁.step s).isStarted = true) (o : Outcome) :
    (setOutcome s o).Ends e₁ (fun _ e' => Attended s e e' ∧ (e'.step s).isStarted = true)
      (fun _ => Attended s e) := by
  refine (setOutcome_gives s o e₁).mono ?_ ?_
  · rintro _ e₂ ⟨hc, hgiven, hg⟩
    have hstep := step_of_alike hgiven (hasStep_of_isStarted hs)
    have hstart : (e₂.step s).startTime = (e₁.step s).startTime := by
      rw [hstep]
      exact Step.startTime_given ..
    have hstarted : (e₂.step s).isStarted = true := (Step.isStarted_of_startTime hstart).trans hs
    refine ⟨ha.change hsteady hg ?_ (Step.startsFrom_of_startTime hstart) fun _ => hstarted, hstarted⟩
    rw [hstep]
    exact ha.timed.given hc o
  · rintro _ _ ⟨rfl, -⟩
    exact ha

/-- A decision that has started is put to its actor after its start. -/
theorem presentDecision_attends (ha : Attended s e e₁) (hs : (e₁.step s).isStarted = true) :
    (presentDecision h s context).Ends e₁ (fun _ e' => Attended s e e' ∧ (e'.step s).isStarted = true)
      (fun _ => Attended s e) := by
  unfold presentDecision
  rw [ends_bind]
  refine (((hq.present s context).ends e₁).and ((ht.present s context).ends e₁)).mono
    (fun _ e₂ h₂ => ?_) fun _ e₂ h₂ => ha.elapsed hsteady (elapsed_of_core h₂.1 h₂.2)
  have ha₂ := ha.elapsed hsteady (elapsed_of_core h₂.1 h₂.2)
  have hs₂ : (e₂.step s).isStarted = true := by rw [step_of_core h₂.1]; exact hs
  rw [ends_bind, ends_updateStep, ends_bind, ends_get, ends_note]
  have hstep : (e₂.mapStep s Step.presented).step s = (e₂.step s).presented :=
    step_mapStep_self _ (hasStep_of_isStarted hs₂)
  refine ⟨ha₂.change hsteady (refl _) ?_ ?_ fun _ => ?_, ?_⟩
  · exact hstep ▸ ha₂.timed.presented hs₂
  · exact hstep ▸ Step.startsFrom_of_startTime rfl
  · exact hstep ▸ hs₂
  · exact hstep ▸ hs₂

/-- A step that has started is executed, and may be completed, after its start. -/
theorem executeStep_attends (ha : Attended s e e₁) (hs : (e₁.step s).isStarted = true) :
    (executeStep h w s context).Ends e₁ (fun _ e' => Attended s e e' ∧ (e'.step s).isStarted = true)
      (fun _ => Attended s e) := by
  unfold executeStep
  rw [ends_bind]
  have hexec : (execute h s context).Ends e₁
      (fun _ e' => Attended s e e' ∧ (e'.step s).isStarted = true) (fun _ => Attended s e) := by
    unfold execute
    rw [ends_bind, ends_get]
    split
    · rw [ends_bind]
      exact presentDecision_attends hsteady hq ht ha hs
    · refine (((hq.execute s context).ends e₁).and ((ht.execute s context).ends e₁)).mono
        (fun _ e₂ h₂ => ?_) fun _ e₂ h₂ => ha.elapsed hsteady (elapsed_of_core h₂.1 h₂.2)
      exact ⟨ha.elapsed hsteady (elapsed_of_core h₂.1 h₂.2), by rw [step_of_core h₂.1]; exact hs⟩
  -- Only an outcome stamps the step again.
  refine (guarding_attends hsteady hexec).mono (fun o e₂ h₂ => ?_) fun _ _ h₂ => h₂
  rw [ends_bind, ends_get, ends_onlyIf]
  split
  · exact setOutcome_attends hsteady h₂.1 h₂.2 o
  · exact h₂

/-- A step that is run starts, if it has not started, and then only is executed. -/
theorem runStep_attends (hs : e.HasStep s) (htimed : (e.step s).Timed e.clock.now)
    (hc : (e.step s).isCompleted = false) :
    (runStep h w s context).Ends e (fun _ e' => Attended s e e' ∧ (e'.step s).isStarted = true)
      (fun _ => Attended s e) := by
  unfold runStep
  rw [ends_bind, ends_get, ends_bind]
  have hready : (onlyIf (!(e.step s).isStarted) (guarding w s (Engine.start h s))).Ends e
      (fun _ e' => Attended s e e' ∧ (e'.step s).isStarted = true) (fun _ => Attended s e) := by
    rw [ends_onlyIf]
    split
    · exact guarding_attends hsteady (start_attends hsteady hq ht hs htimed hc)
    · rename_i hn
      have hstarted : (e.step s).isStarted = true := by simpa using hn
      exact ⟨⟨refl _, htimed, Step.startsFrom_of_startTime rfl, fun _ => hstarted⟩, hstarted⟩
  refine hready.mono (fun _ e₁ h₁ => ?_) fun _ _ h₁ => h₁
  rw [ends_onlyIf]
  split
  · exact executeStep_attends hsteady hq ht h₁.1 h₁.2
  · exact h₁

end Hooked

end Running

end Engine

end ApprovalFlow
