import ApprovalFlow.Engine.Steps
import ApprovalFlow.Proofs.State

/-!
# What the operations on steps do

An outcome is given once (`setOutcome_ends`): what follows is the step with the outcome, completed if the
outcome is a completing one; a failure changes nothing. Work on a step leaves its `frame` alone, and what
is completed stays completed with the outcome it has (`Step.Worked`).
-/

namespace ApprovalFlow

namespace Step

def given (st : Step) (o : Outcome) (t : Instant) : Step :=
  if o.completion then { st with state := .completed, endTime := t, outcome := o }
  else { st with outcome := o }

/-- What work on a step leaves alone: all but its progress. -/
def frame (st : Step) : Step :=
  { st with
    state := .created, outcome := .proceed, errors := [], startTime := Instant.unset,
    endTime := Instant.unset, decision := st.decision.map ({ · with begun := false }) }

structure Worked (a b : Step) : Prop where
  frame : b.frame = a.frame
  final : a.isCompleted → b.isCompleted ∧ b.outcome = a.outcome

theorem allows_completed {st : Step} (h : st.isCompleted = false) :
    st.state.allows .completed = true := by
  cases hs : st.state <;> simp_all [isCompleted, StepState.allows]

theorem not_isCompleted_of_allows {st : Step} {next : StepState} (h : st.state.allows next = true) :
    st.isCompleted = false := by
  cases hs : st.state
  case completed =>
    rw [hs, StepState.not_allows_of_completed] at h
    contradiction
  all_goals simp only [isCompleted, hs]; rfl

section Worked

variable {a b : Step}

theorem worked_refl (a : Step) : Worked a a := ⟨rfl, fun h => ⟨h, rfl⟩⟩

theorem worked_trans {a b c : Step} (hab : Worked a b) (hbc : Worked b c) : Worked a c where
  frame := hbc.frame.trans hab.frame
  final h := by
    obtain ⟨hb, hob⟩ := hab.final h
    obtain ⟨hc, hoc⟩ := hbc.final hb
    exact ⟨hc, hoc.trans hob⟩

instance : IsPreorder Step Worked where
  refl := worked_refl
  trans _ _ _ := worked_trans

/-- A step that is not completed may get any progress. -/
theorem worked_of_frame (h : a.isCompleted = false) (hf : b.frame = a.frame) : Worked a b :=
  ⟨hf, fun ha => by rw [h] at ha; contradiction⟩

/-- A step keeps its state and its outcome where only other things change. -/
theorem worked_of_same (hf : b.frame = a.frame) (hs : b.state = a.state) (ho : b.outcome = a.outcome) :
    Worked a b :=
  ⟨hf, fun ha => ⟨by unfold isCompleted at ha ⊢; rwa [hs], ho⟩⟩

theorem frame_given (st : Step) (o : Outcome) (t : Instant) : (st.given o t).frame = st.frame := by
  unfold given
  split <;> rfl

theorem isCompleted_given {st : Step} {o : Outcome} (h : o.completion) (t : Instant) :
    (st.given o t).isCompleted = true := by
  unfold given
  rw [if_pos h]
  rfl

theorem outcome_given (st : Step) (o : Outcome) (t : Instant) : (st.given o t).outcome = o := by
  unfold given
  split <;> rfl

theorem startTime_given (st : Step) (o : Outcome) (t : Instant) :
    (st.given o t).startTime = st.startTime := by
  unfold given
  split <;> rfl

theorem isCompleted_given_eq {st : Step} (h : st.isCompleted = false) (o : Outcome) (t : Instant) :
    (st.given o t).isCompleted = o.completion := by
  cases ho : o.completion
  case true => exact isCompleted_given ho t
  case false =>
    unfold given
    rw [ho]
    exact h

theorem isDecision_of_frame (h : b.frame = a.frame) : b.isDecision = a.isDecision := by
  have hd : b.frame.isDecision = a.frame.isDecision := congrArg isDecision h
  simpa only [frame, isDecision, Option.isSome_map] using hd

theorem successors_of_frame (h : b.frame = a.frame) : b.successors = a.successors :=
  (congrArg Step.successors h : b.frame.successors = a.frame.successors)

theorem workflowId_of_frame (h : b.frame = a.frame) : b.workflowId = a.workflowId :=
  (congrArg Step.workflowId h : b.frame.workflowId = a.frame.workflowId)

theorem context_of_frame (h : b.frame = a.frame) : b.context = a.context :=
  (congrArg Step.context h : b.frame.context = a.frame.context)

end Worked

end Step

namespace Engine

open Act

variable {σ γ : Type} {e : Engine σ} {F : Failure → Engine σ → Prop}

theorem ends_moveStep {Q : Unit → Engine σ → Prop} (s : StepId) (next : StepState) :
    (moveStep s next).Ends e Q F ↔
      if (e.step s).state.allows next then Q () (e.mapStep s ({ · with state := next }))
      else F (.stepMove (e.step s).state next (e.step s).key) e := by
  simp only [moveStep, ends_bind, ends_get, ends_failIf, ends_updateStep]
  cases (e.step s).state.allows next <;> simp

/-- A step that has neither started nor completed starts, at the time that the clock reads. -/
theorem startStep_starts (s : StepId) (e : Engine σ) :
    (startStep s).Ends e
      (fun _ e' => (e.step s).isStarted = false ∧ (e.step s).state = .created ∧
        e'.Alike (e.mapStep s ({ · with state := .started, startTime := e.clock.now })) ∧
          e.clock.GoesOn e'.clock)
      (fun _ e' => e' = e) := by
  simp only [startStep, ends_bind, ends_get, ends_failIf, ends_moveStep, ends_readClock, ends_updateStep,
    ends_note]
  cases hst : (e.step s).isStarted
  case true => exact trivial
  cases ha : (e.step s).state.allows .started
  case false => exact trivial
  have hcreated : (e.step s).state = .created := by
    cases hs : (e.step s).state <;> simp_all [StepState.allows]
  refine ⟨rfl, hcreated, (alike_aside _ _ _).trans (((alike_aside _ _ _).mapStep _ _).trans ?_),
    Clock.goesOn_tick _⟩
  rw [mapStep_mapStep]
  exact alike_refl _

theorem startStep_ends (s : StepId) (e : Engine σ) :
    (startStep s).Ends e
      (fun _ e' => (e.step s).isStarted = false ∧ (e.step s).isCompleted = false ∧
        e'.Alike (e.mapStep s ({ · with state := .started, startTime := e.clock.now })))
      (fun _ e' => e' = e) := by
  refine (startStep_starts s e).mono ?_ fun _ _ h => h
  rintro _ e' ⟨hs, hcreated, ha, -⟩
  refine ⟨hs, ?_, ha⟩
  unfold Step.isCompleted
  rw [hcreated]
  rfl

/-- An incomplete step that permits it gets an outcome, or nothing changes. If the outcome completes the
step, it does so at the time that the clock reads. -/
theorem setOutcome_gives (s : StepId) (o : Outcome) (e : Engine σ) :
    (setOutcome s o).Ends e
      (fun _ e' => (e.step s).isCompleted = false ∧ e'.Alike (e.mapStep s (·.given o e.clock.now)) ∧
        e.clock.GoesOn e'.clock)
      (fun _ e' => e' = e ∧ ((e.step s).isCompleted = true ∨ (e.step s).permits o = false)) := by
  simp only [setOutcome, completeStep, ends_bind, ends_get, ends_failIf, ends_onlyIf, ends_moveStep,
    ends_readClock, ends_updateStep, ends_note]
  cases hc : (e.step s).isCompleted
  case true => exact ⟨trivial, .inl rfl⟩
  cases hp : (e.step s).permits o
  case false => exact ⟨trivial, .inr rfl⟩
  simp only [Step.allows_completed hc, Bool.false_eq_true, Bool.not_true, if_false, if_true]
  cases ho : o.completion
  case false =>
    simp only [Step.given, ho, Bool.false_eq_true, if_false]
    exact ⟨trivial, alike_aside _ _ _, refl _⟩
  case true =>
    simp only [Step.given, ho, if_true]
    refine ⟨trivial, (alike_aside _ _ _).trans ((((alike_aside _ _ _).mapStep _ _).mapStep _ _).trans ?_),
      Clock.goesOn_tick _⟩
    rw [mapStep_mapStep, mapStep_mapStep]
    exact alike_refl _

/-- An outcome is given to an incomplete step that permits it, or nothing changes. -/
theorem setOutcome_ends (s : StepId) (o : Outcome) (e : Engine σ) :
    (setOutcome s o).Ends e
      (fun _ e' => (e.step s).isCompleted = false ∧ ∃ t, e'.Alike (e.mapStep s (·.given o t)))
      (fun _ e' => e' = e ∧ ((e.step s).isCompleted = true ∨ (e.step s).permits o = false)) :=
  (setOutcome_gives s o e).mono (fun _ _ h => ⟨h.1, _, h.2.1⟩) fun _ _ h => h

theorem permits_abort (st : Step) : st.permits .abort = true := by
  unfold Step.permits
  rw [show Outcome.abort.same .abort = true from rfl, Bool.or_true]

/-- A decision is resolved by being given an outcome, or nothing changes. -/
theorem resolve_gives (s : StepId) (o : Outcome) (e : Engine σ) :
    (resolve s o).Ends e
      (fun _ e' => (e.step s).isCompleted = false ∧ (e.step s).isDecision = true ∧
        e'.Alike (e.mapStep s (·.given o e.clock.now)) ∧ e.clock.GoesOn e'.clock)
      (fun _ e' => e' = e) := by
  simp only [resolve, ends_bind, ends_get, ends_failIf, ends_note]
  cases hd : (e.step s).isDecision
  case false => exact trivial
  cases hp : !(e.step s).offers o && !o.same .abort
  case true => exact trivial
  refine (setOutcome_gives s o e).mono ?_ fun _ _ h => h.1
  rintro _ _ ⟨hc, he, hk⟩
  exact ⟨hc, rfl, he.aside _ _, hk⟩

theorem resolve_ends (s : StepId) (o : Outcome) (e : Engine σ) :
    (resolve s o).Ends e
      (fun _ e' => (e.step s).isCompleted = false ∧ (e.step s).isDecision = true ∧
        ∃ t, e'.Alike (e.mapStep s (·.given o t)))
      (fun _ e' => e' = e) :=
  (resolve_gives s o e).mono (fun _ _ h => ⟨h.1, h.2.1, _, h.2.2.1⟩) fun _ _ h => h

/-- An incomplete decision gets another actor, or nothing changes. -/
theorem reassign_gives (s : StepId) (actor : Option Actor) (e : Engine σ) :
    (reassign s actor).Ends e
      (fun _ e' => (e.step s).isCompleted = false ∧ e'.Alike (e.mapStep s ({ · with actor })) ∧
        e.clock.GoesOn e'.clock)
      (fun _ e' => e' = e) := by
  simp only [reassign, ends_bind, ends_get, ends_failIf, ends_note, ends_updateStep]
  cases (e.step s).isDecision
  case false => exact trivial
  cases (e.step s).isReassignable
  case false => exact trivial
  cases hc : (e.step s).isCompleted
  case true => exact trivial
  exact ⟨rfl, (alike_aside _ _ _).mapStep _ _, refl _⟩

theorem reassign_ends (s : StepId) (actor : Option Actor) (e : Engine σ) :
    (reassign s actor).Ends e
      (fun _ e' => e'.Alike (e.mapStep s ({ · with actor }))) (fun _ e' => e' = e) :=
  (reassign_gives s actor e).mono (fun _ _ h => h.2.1) fun _ _ h => h

/-- A step is bound unless it was started with another context. -/
theorem ends_bindStep {Q : Unit → Engine σ → Prop} (s : StepId) (id : Int) (c : ContextId) :
    (bindStep s id c).Ends e Q F ↔
      if (e.step s).isStarted && (e.step s).context.any (· != c) then
        F (.boundElsewhere (e.step s).key) e
      else Q () (e.mapStep s ({ · with workflowId := some id, context := some c })) := by
  simp only [bindStep, ends_bind, ends_get, ends_failIf, ends_updateStep]

end Engine

end ApprovalFlow
