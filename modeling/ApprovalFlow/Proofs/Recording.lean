import ApprovalFlow.Proofs.Driving
import ApprovalFlow.Proofs.Walk
import Mathlib.Data.List.Nodup

/-!
# What the history records

A workflow leaves its current step behind before it looks at the one that follows. If it cannot go on to
that, it is stuck, and every further `advance` records the same step once more. So no step is recorded
twice exactly as long as no stuck workflow is advanced (`recorded_once_iff`).
-/

namespace ApprovalFlow

def Failure.OfSuccessor : Failure → Prop
  | .successorCompleted _ _ | .boundElsewhere _ => True
  | _ => False

/-- What has been done with a step stays done: its successors are the same, its completion is final, and
once started for another context than `c` it is out of reach for `c`. -/
structure Step.Later (a b : Step) : Prop where
  successors : b.successors = a.successors
  final : a.isCompleted = true → b.isCompleted = true ∧ b.outcome = a.outcome
  held : ∀ c, (a.isStarted && a.context.any (· != c)) = true →
    (b.isStarted && b.context.any (· != c)) = true

namespace Step

variable {a b c : Step}

theorem later_refl (a : Step) : Later a a := ⟨rfl, fun h => ⟨h, rfl⟩, fun _ h => h⟩

theorem Later.trans (h : Later a b) (h' : Later b c) : Later a c where
  successors := h'.successors.trans h.successors
  final ha := by
    obtain ⟨hb, hob⟩ := h.final ha
    obtain ⟨hc, hoc⟩ := h'.final hb
    exact ⟨hc, hoc.trans hob⟩
  held c ha := h'.held c (h.held c ha)

instance : IsPreorder Step Later where
  refl := later_refl
  trans _ _ _ := Later.trans

/-- What leaves the frame, the start and an earlier completion of a step alone. -/
theorem later_of_frame (hf : b.frame = a.frame) (hs : b.startTime = a.startTime)
    (hd : a.isCompleted = true → b.isCompleted = true ∧ b.outcome = a.outcome) : Later a b := by
  refine ⟨successors_of_frame hf, hd, fun c hc => ?_⟩
  unfold isStarted
  rw [hs, context_of_frame hf]
  exact hc

theorem later_given (h : a.isCompleted = false) (o : Outcome) (t : Instant) : Later a (a.given o t) :=
  later_of_frame (frame_given ..) (startTime_given ..) fun ha => by rw [h] at ha; contradiction

/-- A step that was started for a context is bound in that context only. -/
theorem later_bound (id : Int) {c : ContextId}
    (hb : (a.isStarted && a.context.any (· != c)) = false) :
    Later a { a with workflowId := some id, context := some c } := by
  refine ⟨rfl, fun hd => ⟨hd, rfl⟩, fun d hh => ?_⟩
  show (a.isStarted && (some c).any (· != d)) = true
  cases hst : a.isStarted
  case false =>
    rw [hst] at hh
    contradiction
  case true =>
    rw [hst, Bool.true_and] at hb hh
    cases hctx : a.context with
    | none =>
      rw [hctx] at hh
      contradiction
    | some c' =>
      rw [hctx] at hb hh
      have hcc : c' = c := by simpa using hb
      rw [← hcc]
      exact hh

theorem Remarked.later (h : a.Remarked b) : Later a b := by
  refine later_of_frame h.frame h.startTime fun ha => ⟨?_, h.outcome⟩
  unfold isCompleted at ha ⊢
  rwa [h.state]

end Step

namespace Engine

open Act

variable {σ γ : Type} {h : Hooks σ γ} {w v : WorkflowId} {s : StepId} {context : γ} {e e' : Engine σ}

/-- The workflow is running, and has left its current step behind without going on to another. -/
def Stuck (w : WorkflowId) (e : Engine σ) : Prop :=
  (e.workflow w).state = .running ∧ (e.workflow w).history.getLast? = some (e.workflow w).current

def Barred (c : ContextId) (st : Step) : Prop :=
  st.isCompleted = true ∨ (st.isStarted && st.context.any (· != c)) = true

/-- The history of a workflow that is not over lists completed steps, and the current step only if the
workflow is stuck there. -/
structure Recorded (w : WorkflowId) (e : Engine σ) : Prop where
  hasWorkflow : e.HasWorkflow w
  done : (e.workflow w).state.isTerminal = false → ∀ s ∈ (e.workflow w).history,
    (e.step s).isCompleted = true
  ahead : (e.workflow w).state.isTerminal = false →
    (e.workflow w).history.getLast? ≠ some (e.workflow w).current →
      (e.workflow w).current ∉ (e.workflow w).history
  barred : (e.workflow w).state.isTerminal = false →
    (e.workflow w).history.getLast? = some (e.workflow w).current →
      (e.workflow w).state = .running ∧
        (e.step (e.workflow w).current).outcome.same .abort = false ∧
          ∃ t, (e.step (e.workflow w).current).next? (e.step (e.workflow w).current).outcome = some t ∧
            Barred (e.workflow w).context (e.step t)

/-! ## Beside the workflow -/

/-- The workflow `w` is as it was but for its listeners, and what has been done with steps stays done. -/
structure Beside (w : WorkflowId) (e e' : Engine σ) : Prop where
  hasWorkflow : e.HasWorkflow w → e'.HasWorkflow w
  workflow : (e.workflow w).EqButListeners (e'.workflow w)
  steps : ∀ t, Step.Later (e.step t) (e'.step t)

instance : IsPreorder (Engine σ) (Beside w) where
  refl e := ⟨id, refl _, fun t => Step.later_refl (e.step t)⟩
  trans _ _ _ h h' :=
    ⟨fun hw => h'.hasWorkflow (h.hasWorkflow hw), IsTrans.trans _ _ _ h.workflow h'.workflow,
      fun t => (h.steps t).trans (h'.steps t)⟩

theorem beside_of_same (hs : e'.steps = e.steps) (hw : e'.workflows = e.workflows) : Beside w e e' where
  hasWorkflow := (hasWorkflow_of_workflows hw w).mpr
  workflow := Workflow.eqButListeners_of_eq (workflow_of_workflows hw w)
  steps t := by
    rw [step_of_steps hs]
    exact Step.later_refl _

theorem beside_of_core (hc : e'.core = e.core) : Beside w e e' :=
  beside_of_same (congrArg Core.steps hc) (congrArg Core.workflows hc)

theorem beside_mapStep {f : Step → Step} (hf : Step.Later (e.step s) (f (e.step s))) :
    Beside w e (e.mapStep s f) :=
  ⟨id, refl _, fun t => rel_step_mapStep t f hf⟩

/-- Anyone may come to listen to a workflow. -/
theorem beside_listenTo (v : WorkflowId) (l : Listener) : Beside w e ((listenTo v l).run e).2 where
  hasWorkflow := (hasWorkflow_mapWorkflow e v w _).mpr
  workflow := eqButListeners_mapWorkflow fun _ => ⟨_, rfl⟩
  steps _ := Step.later_refl _

/-- Driving another workflow is done beside. -/
theorem tolerates_beside (hv : w ≠ v) : Tolerates (Beside (σ := σ) w) v where
  off := beside_of_same
  flow f e := ⟨(hasWorkflow_mapWorkflow ..).mpr,
    Workflow.eqButListeners_of_eq (workflow_mapWorkflow_of_ne w f hv), fun t => Step.later_refl _⟩
  remark _ _ _ hr := beside_mapStep hr.later
  give _ o t _ hc _ := beside_mapStep (Step.later_given hc o t)
  start s t e hs hc := by
    apply beside_mapStep
    refine ⟨rfl, fun hd => ?_, fun c hh => ?_⟩
    · rw [hc] at hd
      contradiction
    · rw [hs] at hh
      contradiction
  bind _ id _ _ hb := beside_mapStep (Step.later_bound id hb)

theorem Recorded.beside (hk : Recorded w e) (hb : Beside w e e') : Recorded w e' where
  hasWorkflow := hb.hasWorkflow hk.hasWorkflow
  done hl s hs := by
    obtain ⟨listeners, hw⟩ := hb.workflow
    rw [hw] at hl hs
    exact ((hb.steps s).final (hk.done hl s hs)).1
  ahead := by
    obtain ⟨listeners, hw⟩ := hb.workflow
    rw [hw]
    exact hk.ahead
  barred hl hlast := by
    obtain ⟨listeners, hw⟩ := hb.workflow
    rw [hw] at hl hlast ⊢
    obtain ⟨hr, ho, t, ht, hbar⟩ := hk.barred hl hlast
    -- The current step is completed, so what follows it is settled.
    obtain ⟨-, hsame⟩ := (hb.steps _).final (hk.done hl _ (List.mem_of_getLast? hlast))
    refine ⟨hr, by rw [hsame]; exact ho, t, ?_, ?_⟩
    · unfold Step.next?
      rw [hsame, (hb.steps _).successors]
      exact ht
    · exact hbar.imp (fun hc => ((hb.steps t).final hc).1) ((hb.steps t).held _)

theorem Beside.stuck (hb : Beside w e e') : Stuck w e' ↔ Stuck w e := by
  obtain ⟨listeners, hw⟩ := hb.workflow
  unfold Stuck
  rw [hw]

/-! ## Driving the workflow -/

/-- A workflow that is over records nothing any more. -/
theorem recorded_of_over (hw : e.HasWorkflow w) (hover : (e.workflow w).state.isTerminal = true) :
    Recorded w e := by
  refine ⟨hw, fun hl => ?_, fun hl => ?_, fun hl => ?_⟩ <;>
    · rw [hover] at hl
      contradiction

/-- The record is in order, and no step is in it twice exactly if `once` holds. -/
structure Kept (once : Prop) (w : WorkflowId) (e : Engine σ) : Prop where
  recorded : Recorded w e
  nodup : (e.workflow w).history.Nodup ↔ once

structure Underway (once : Prop) (w : WorkflowId) (e : Engine σ) : Prop extends Kept once w e where
  running : (e.workflow w).state = .running
  free : (e.workflow w).history.getLast? ≠ some (e.workflow w).current

structure Fails (once : Prop) (w : WorkflowId) (x : Failure) (e : Engine σ) : Prop
    extends Kept once w e where
  stuck : Stuck w e → x.OfSuccessor

structure Replies (once : Prop) (w : WorkflowId) (e : Engine σ) : Prop extends Kept once w e where
  free : ¬Stuck w e

section Driving

variable {once : Prop}

theorem Underway.live (hg : Underway once w e) : (e.workflow w).state.isTerminal = false := by
  rw [hg.running]
  rfl

theorem Underway.replies (hg : Underway once w e) : Replies once w e := ⟨hg.toKept, fun h => hg.free h.2⟩

theorem Replies.fails (hr : Replies once w e) (x : Failure) : Fails once w x e :=
  ⟨hr.toKept, fun h => absurd h hr.free⟩

theorem Kept.same (hk : Kept once w e) (hb : Beside w e e') : Kept once w e' := by
  refine ⟨hk.recorded.beside hb, ?_⟩
  obtain ⟨listeners, hw⟩ := hb.workflow
  rw [hw]
  exact hk.nodup

theorem Underway.same (hg : Underway once w e) (hb : Beside w e e') : Underway once w e' := by
  refine ⟨hg.toKept.same hb, ?_, ?_⟩
  all_goals
    obtain ⟨listeners, hw⟩ := hb.workflow
    rw [hw]
  · exact hg.running
  · exact hg.free

theorem Replies.same (hr : Replies once w e) (hb : Beside w e e') : Replies once w e' :=
  ⟨hr.toKept.same hb, fun h => hr.free (hb.stuck.mp h)⟩

/-- A workflow that is not stuck may have any step worked on. -/
theorem Underway.worked (hg : Underway once w e) (hw : Worked (fun _ => []) s e e') : Underway once w e' := by
  refine ⟨⟨⟨(hw.hasWorkflow w).mpr hg.recorded.hasWorkflow, ?_, ?_, ?_⟩, ?_⟩, ?_, ?_⟩ <;>
    rw [hw.workflow w]
  · intro hl t ht
    have hc := hg.recorded.done hl t ht
    by_cases hts : t = s
    · subst hts
      exact (hw.self.final hc).1
    · rw [hw.others t hts]
      exact hc
  · exact hg.recorded.ahead
  · exact fun _ hlast => absurd hlast hg.free
  · exact hg.nodup
  · exact hg.running
  · exact hg.free

theorem Replies.ends_emit (hq : h.Quiet) (hr : Replies once w e) (kind : EventKind) :
    (emit h w kind).Ends e (fun _ => Replies once w) (fun _ => Replies once w) :=
  ((emit_told hq h.logs_nil w kind).ends e).mono
    (fun _ _ ht => hr.same (beside_of_same ht.steps ht.workflows))
    fun _ _ ht => hr.same (beside_of_same ht.steps ht.workflows)

theorem nodup_concat_iff {l : List StepId} (hs : s ∉ l) : (l ++ [s]).Nodup ↔ l.Nodup := by
  rw [← List.concat_eq_append, List.nodup_concat]
  exact and_iff_right hs

/-- To leave the current step behind records it, for the first time. -/
theorem Underway.nodup_left (hg : Underway once w e) :
    ((e.workflow w).left (e.workflow w).current).history.Nodup ↔ once := by
  rw [← hg.nodup]
  show ((e.workflow w).history ++ [(e.workflow w).current]).Nodup ↔ _
  exact nodup_concat_iff (hg.recorded.ahead hg.live hg.free)

/-- A workflow that is going may end on its completed step. -/
theorem Underway.ended (hg : Underway once w e) {state : WorkflowState} (t : Instant)
    (hstate : state.isTerminal = true) :
    Replies once w (e.mapWorkflow w fun wf => (wf.left (e.workflow w).current).ended state t) := by
  have hself := workflow_mapWorkflow_self (e := e)
    (fun wf => (wf.left (e.workflow w).current).ended state t) hg.recorded.hasWorkflow
  refine ⟨⟨recorded_of_over ?_ ?_, ?_⟩, ?_⟩
  · exact (hasWorkflow_mapWorkflow ..).mpr hg.recorded.hasWorkflow
  · rw [hself]
    exact hstate
  · rw [hself]
    exact hg.nodup_left
  · rintro ⟨hr, -⟩
    rw [hself] at hr
    have hover : state = .running := hr
    rw [hover] at hstate
    contradiction

/-- A workflow that is going gets stuck on its completed step if the next one is barred. -/
theorem Underway.sticks (hg : Underway once w e) (hc : (e.step (e.workflow w).current).isCompleted = true)
    (ho : (e.step (e.workflow w).current).outcome.same .abort = false) {t : StepId}
    (ht : (e.step (e.workflow w).current).next? (e.step (e.workflow w).current).outcome = some t)
    (hbar : Barred (e.workflow w).context (e.step t)) :
    Kept once w (e.mapWorkflow w (·.left (e.workflow w).current)) := by
  have hself := workflow_mapWorkflow_self (e := e) (·.left (e.workflow w).current)
    hg.recorded.hasWorkflow
  refine ⟨⟨(hasWorkflow_mapWorkflow ..).mpr hg.recorded.hasWorkflow, ?_, ?_, ?_⟩, ?_⟩ <;> rw [hself]
  · intro _ s hs
    rcases List.mem_append.mp hs with hs | hs
    · exact hg.recorded.done hg.live s hs
    · rw [List.mem_singleton.mp hs]
      exact hc
  · exact fun _ hlast => absurd List.getLast?_concat hlast
  · exact fun _ _ => ⟨hg.running, ho, t, ht, hbar⟩
  · exact hg.nodup_left

/-- A workflow that is going goes on to a step that is not completed. -/
theorem Underway.moved (hg : Underway once w e) (hc : (e.step (e.workflow w).current).isCompleted = true)
    {t : StepId} (hct : (e.step t).isCompleted = false) :
    Underway once w (e.mapWorkflow w fun wf =>
      (wf.left (e.workflow w).current).moved (e.workflow w).current t) := by
  have hself := workflow_mapWorkflow_self (e := e)
    (fun wf => (wf.left (e.workflow w).current).moved (e.workflow w).current t)
    hg.recorded.hasWorkflow
  have hdone : ∀ s ∈ (e.workflow w).history ++ [(e.workflow w).current],
      (e.step s).isCompleted = true := by
    intro s hs
    rcases List.mem_append.mp hs with hs | hs
    · exact hg.recorded.done hg.live s hs
    · rw [List.mem_singleton.mp hs]
      exact hc
  -- All that is recorded is completed, so the next step is not recorded.
  have hnew : t ∉ (e.workflow w).history ++ [(e.workflow w).current] := by
    intro ht
    rw [hdone t ht] at hct
    contradiction
  have hlast : ((e.workflow w).history ++ [(e.workflow w).current]).getLast? ≠ some t := by
    intro hl
    exact hnew (List.mem_of_getLast? hl)
  refine ⟨⟨⟨(hasWorkflow_mapWorkflow ..).mpr hg.recorded.hasWorkflow, ?_, ?_, ?_⟩, ?_⟩, ?_, ?_⟩ <;>
    rw [hself]
  · exact fun _ => hdone
  · exact fun _ _ => hnew
  · exact fun _ hl => absurd hl hlast
  · exact hg.nodup_left
  · exact hg.running
  · exact hlast

/-- A workflow that is going may change its state and its times. -/
theorem Underway.changed (hg : Underway once w e) {f : Workflow → Workflow}
    (hf : ∀ wf, (f wf).history = wf.history ∧ (f wf).current = wf.current) :
    Replies once w (e.mapWorkflow w f) := by
  have hself := workflow_mapWorkflow_self (e := e) f hg.recorded.hasWorkflow
  obtain ⟨hh, hcur⟩ := hf (e.workflow w)
  refine ⟨⟨⟨(hasWorkflow_mapWorkflow ..).mpr hg.recorded.hasWorkflow, ?_, ?_, ?_⟩, ?_⟩, ?_⟩
  · rw [hself, hh]
    exact fun _ => hg.recorded.done hg.live
  · rw [hself, hh, hcur]
    exact fun _ => hg.recorded.ahead hg.live
  · rw [hself, hh, hcur]
    exact fun _ hl => absurd hl hg.free
  · rw [hself, hh]
    exact hg.nodup
  · rintro ⟨-, hl⟩
    rw [hself, hh, hcur] at hl
    exact hg.free hl

theorem Underway.ends_leave (hq : h.Quiet) (hg : Underway once w e)
    (hc : (e.step (e.workflow w).current).isCompleted = true) :
    (leave h w (e.workflow w).current).Ends e (after (fun _ => Replies once w) (Underway once w))
      (fun x => Fails once w x) := by
  have hself := workflow_mapWorkflow_self (e := e) (·.left (e.workflow w).current)
    hg.recorded.hasWorkflow
  have ends : ∀ state kind, state.isTerminal = true → WorkflowState.running.allows state = true →
      (finish h w state kind).Ends (e.mapWorkflow w (·.left (e.workflow w).current))
        (fun _ => Replies once w) (fun x => Fails once w x) := by
    intro state kind hover ha
    apply ends_finish state kind
    · rw [hself]
      exact hg.running ▸ ha
    · intro e' he _
      rw [mapWorkflow_mapWorkflow] at he
      have hr := (hg.ended _ hover).same (beside_of_core he.core)
      exact (hr.ends_emit hq kind).mono (fun _ _ h₁ => h₁) fun x _ h₁ => h₁.fails x
  unfold leave record
  rw [ends_bind, ends_updateWorkflow, ends_bind, ends_get]
  show Ends _ (e.mapWorkflow w (·.left (e.workflow w).current)) _ _
  by_cases ho : (e.step (e.workflow w).current).outcome.same .abort = true
  · rw [step_mapWorkflow, if_pos ho]
    exact (ends_bind _ _).mpr (ends .aborted _ rfl rfl)
  rw [step_mapWorkflow, if_neg ho]
  have ho' := Bool.eq_false_iff.mpr ho
  split
  · exact (ends_bind _ _).mpr (ends .completed _ rfl rfl)
  · rename_i t ht
    simp only [follow, ends_bind, ends_get, ends_failIf, ends_bindStep, ends_updateWorkflow,
      ends_note, ends_pure, step_mapWorkflow, hself]
    split
    · rename_i hct
      exact ⟨hg.sticks hc ho' ht (.inl hct), fun _ => trivial⟩
    rename_i hct
    split
    · rename_i hb
      exact ⟨hg.sticks hc ho' ht (.inr hb), fun _ => trivial⟩
    · rename_i hb
      have hm := hg.moved hc (Bool.eq_false_iff.mpr hct)
      have hbound := hm.same (beside_mapStep (s := t) (f := (·.boundTo (e.workflow w)))
        (Step.later_bound _ (Bool.eq_false_iff.mpr hb)))
      -- The workflow is moved and the step is bound, in whatever order.
      refine hbound.same (beside_of_core ?_)
      rw [mapStep_mapWorkflow, mapStep_mapWorkflow, mapWorkflow_mapWorkflow]
      rfl

theorem Underway.ends_pause (hq : h.Quiet) (hg : Underway once w e) (s : StepId) :
    (pause h w s).Ends e (after (fun _ => Replies once w) (Underway once w)) (fun x => Fails once w x) := by
  unfold pause
  rw [ends_bind, ends_get]
  dsimp only
  split
  · rw [ends_bind]
    refine ends_moveWorkflow .waiting (by rw [hg.running]; rfl) fun e' he _ => ?_
    rw [ends_bind]
    have hr := (hg.changed (f := ({ · with state := .waiting })) fun _ => ⟨rfl, rfl⟩).same
      (beside_of_core he.core)
    exact (hr.ends_emit hq _).mono (fun _ _ h₁ => h₁) fun x _ h₁ => h₁.fails x
  · exact hg.replies

/-- A turn of a workflow that is going keeps its record, whatever it comes to. -/
theorem Underway.ends_turn (hq : h.Quiet) (hg : Underway once w e) (context : γ) :
    (turn h w context).Ends e (after (fun _ => Replies once w) (Underway once w))
      (fun x => Fails once w x) := by
  unfold turn
  rw [ends_bind, ends_get, ends_bind, ends_get, ends_bind]
  have hrun := (runStep_worked (e.workflow w).current hq h.logs_nil w context).onlyIf
    (!(e.step (e.workflow w).current).isCompleted)
  refine (hrun.ends e).mono (fun _ e₁ h₁ => ?_) fun x _ h₁ => (hg.worked h₁).replies.fails x
  have hg₁ := hg.worked h₁
  rw [← h₁.workflow w, ends_bind, ends_get]
  split
  · rename_i hc
    exact hg₁.ends_leave hq hc
  · exact hg₁.ends_pause hq _

theorem Underway.ends_process (hq : h.Quiet) (hg : Underway once w e) (context : γ) :
    (process h w context).Ends e (fun _ => Replies once w) (fun x => Fails once w x) :=
  traverse_ends (P := Underway once w) (fun _ hg => hg.ends_turn hq context)
    (fun _ hg => hg.replies.fails _) _ hg

/-- Advancing a workflow that is not stuck records no step twice. -/
theorem Recorded.ends_advance (hq : h.Quiet) (hk : Recorded w e) (hfree : ¬Stuck w e) (context : γ) :
    (advance h w context).Ends e (fun _ => Replies (e.workflow w).history.Nodup w)
      (fun x => Fails (e.workflow w).history.Nodup w x) := by
  have hreplies : Replies (e.workflow w).history.Nodup w e := ⟨⟨hk, Iff.rfl⟩, hfree⟩
  have hgoing : (e.workflow w).state = .running → Underway (e.workflow w).history.Nodup w e :=
    fun hr => ⟨⟨hk, Iff.rfl⟩, hr, fun hl => hfree ⟨hr, hl⟩⟩
  refine advance_enters (fun _ x => hreplies.fails x) (fun _ _ => hreplies)
    (fun hr => (hgoing hr).ends_process hq context) fun hs kind _ t e₁ h₁ => ?_
  have hlive : (e.workflow w).state.isTerminal = false := by
    rcases hs with hs | ⟨hs, -⟩ <;> rw [hs] <;> rfl
  -- Only a running workflow is stuck, so this one is not.
  have hlast : (e.workflow w).history.getLast? ≠ some (e.workflow w).current := by
    intro hl
    have hr := (hk.barred hlive hl).1
    rcases hs with hs | ⟨hs, -⟩ <;> rw [hs] at hr <;> contradiction
  have hself := workflow_mapWorkflow_self (e := e) (·.resumed t) hk.hasWorkflow
  have hg : Underway (e.workflow w).history.Nodup w (e.mapWorkflow w (·.resumed t)) := by
    refine ⟨⟨⟨(hasWorkflow_mapWorkflow ..).mpr hk.hasWorkflow, ?_, ?_, ?_⟩, ?_⟩, ?_, ?_⟩ <;> rw [hself]
    · exact fun _ => hk.done hlive
    · exact fun _ => hk.ahead hlive
    · exact fun _ hl => absurd hl hlast
    · exact Iff.rfl
    · rfl
    · exact hlast
  have hg₁ := hg.same (beside_of_core h₁.core)
  rw [ends_bind]
  refine ((emit_told hq h.logs_nil w kind).ends e₁).mono (fun _ e₂ h₂ => ?_) fun x e₂ h₂ => ?_
  · exact (hg₁.same (beside_of_same h₂.steps h₂.workflows)).ends_process hq context
  · exact (hg₁.same (beside_of_same h₂.steps h₂.workflows)).replies.fails x

/-- Advancing a stuck workflow fails for the same reason, and records its current step once more. -/
theorem Recorded.advance_stuck (hk : Recorded w e) (hs : Stuck w e) (context : γ) :
    ∃ x, (advance h w context).run e = (.error x, e.mapWorkflow w (·.left (e.workflow w).current)) ∧
      x.OfSuccessor := by
  have hlive : (e.workflow w).state.isTerminal = false := by
    rw [hs.1]
    rfl
  obtain ⟨-, ho, t, ht, hbar⟩ := hk.barred hlive hs.2
  have hc := hk.done hlive _ (List.mem_of_getLast? hs.2)
  have hself := workflow_mapWorkflow_self (e := e) (·.left (e.workflow w).current) hk.hasWorkflow
  suffices hends : (advance h w context).Ends e (fun _ _ => False)
      (fun x e' => e' = e.mapWorkflow w (·.left (e.workflow w).current) ∧ x.OfSuccessor) by
    rcases hr : (advance h w context).run e with ⟨x | a, e'⟩
    · obtain ⟨he, hx⟩ := hends.of_error hr
      exact ⟨x, by rw [he], hx⟩
    · exact (hends.of_ok hr).elim
  -- The turn finds the step completed, records it, and is refused by the same successor as the last
  -- time.
  have hturn : (turn h w context).Ends e (fun _ _ => False)
      (fun x e' => e' = e.mapWorkflow w (·.left (e.workflow w).current) ∧ x.OfSuccessor) := by
    unfold turn leave record
    simp only [ends_bind, ends_get, ends_onlyIf, hc, Bool.not_true, Bool.false_eq_true, if_false,
      if_true, ends_updateWorkflow]
    show Ends _ (e.mapWorkflow w (·.left (e.workflow w).current)) _ _
    rw [step_mapWorkflow, if_neg (by rw [ho]; exact Bool.false_ne_true), ht]
    simp only [follow, ends_bind, ends_get, ends_failIf, ends_bindStep, ends_updateWorkflow,
      ends_note, ends_pure, step_mapWorkflow, hself]
    split
    · exact ⟨trivial, trivial⟩
    · rename_i hct
      split
      · exact ⟨trivial, trivial⟩
      · rename_i hb
        exact absurd (hbar.resolve_left hct) hb
  unfold advance
  simp only [ends_bind, ends_get, ends_failIf, hs.1]
  show (process h w context).Ends e _ _
  unfold process
  rw [ends_bind, ends_get, show e.steps.size + 1 + h.room = e.steps.size + h.room + 1 by omega]
  unfold traverse
  rw [ends_bind]
  exact hturn.mono (fun _ _ => False.elim) fun _ _ h => h

/-- Aborting a workflow records its current step unless that is the last that is recorded. -/
theorem Recorded.ends_abort (hq : h.Quiet) (hk : Recorded w e) :
    (abort h w).Ends e (fun _ => Replies (e.workflow w).history.Nodup w)
      (fun _ e' => e' = e ∨ Replies (e.workflow w).history.Nodup w e') := by
  apply abort_closes fun _ _ => .inl rfl
  intro hlive e₁ h₁ e' he _
  obtain ⟨t, ht⟩ : ∃ t, t = e₁.clock.now := ⟨_, rfl⟩
  rw [← ht] at he
  have hsame : e₁.workflow w = e.workflow w ∧ (e₁.HasWorkflow w ↔ e.HasWorkflow w) := by
    split at h₁
    · subst h₁
      exact ⟨rfl, Iff.rfl⟩
    · exact ⟨workflow_of_core h₁.1.core w, hasWorkflow_of_core h₁.1.core w⟩
  have hw₁ := hsame.2.mpr hk.hasWorkflow
  have hself : (e₁.mapWorkflow w (·.aborted t)).workflow w = (e.workflow w).aborted t := by
    rw [workflow_mapWorkflow_self _ hw₁, hsame.1]
  -- The current step is recorded already, or it is new.
  have hnodup : ((e.workflow w).aborted t).history.Nodup ↔ (e.workflow w).history.Nodup := by
    unfold Workflow.aborted
    split
    · rename_i hl
      have hnew := hk.ahead hlive (bne_iff_ne.mp hl)
      show ((e.workflow w).history ++ [(e.workflow w).current]).Nodup ↔ _
      exact nodup_concat_iff hnew
    · exact Iff.rfl
  have hr : Replies (e.workflow w).history.Nodup w (e₁.mapWorkflow w (·.aborted t)) := by
    refine ⟨⟨recorded_of_over ((hasWorkflow_mapWorkflow ..).mpr hw₁) ?_, ?_⟩, ?_⟩
    · rw [hself, Workflow.state_aborted]
      rfl
    · rw [hself]
      exact hnodup
    · rintro ⟨hrun, -⟩
      rw [hself, Workflow.state_aborted] at hrun
      contradiction
  exact ((hr.same (beside_of_core he.core)).ends_emit hq _).mono (fun _ _ h₂ => h₂)
    fun _ _ h₂ => .inr h₂

end Driving

/-! ## Along a run -/

/-- A stuck workflow has been advanced in the course of a run. -/
def Retried (h : Hooks σ γ) (w : WorkflowId) (e : Engine σ) (ops : List (Operation σ γ)) : Prop :=
  ∃ past context, past ++ [.advance w context] <+: ops ∧ Stuck w (runs h e past)

/-- Advancing and aborting workflows, resolving decisions and giving them to other actors, and whatever else
is done beside the workflow `w`, where anyone may come to listen to it or leave. -/
def Direct (w : WorkflowId) (e : Engine σ) : Operation σ γ → Prop
  | .advance _ _ | .abort _ | .resolve _ _ | .reassign _ _ => True
  | .other action => Beside w e (action.run e).2
  | _ => False

/-- What an operation means for the record of the workflow `w`. -/
structure Notes (h : Hooks σ γ) (w : WorkflowId) (op : Operation σ γ) (e e' : Engine σ) : Prop where
  recorded : Recorded w e'
  nodup : (e'.workflow w).history.Nodup ↔
    (e.workflow w).history.Nodup ∧ ¬(Stuck w e ∧ ∃ context, op = .advance w context)
  stuck : Stuck w e' → Stuck w e ∨ ∃ context x, op = .advance w context ∧
    ((advance h w context).run e).1 = .error x ∧ x.OfSuccessor

theorem retried_concat {ops : List (Operation σ γ)} {op : Operation σ γ} :
    Retried h w e (ops ++ [op]) ↔
      Retried h w e ops ∨ Stuck w (runs h e ops) ∧ ∃ context, op = .advance w context := by
  constructor
  · rintro ⟨past, context, hp, hs⟩
    rcases List.prefix_concat_iff.mp hp with heq | hp
    · obtain ⟨rfl, hop⟩ := List.append_inj' heq rfl
      exact .inr ⟨hs, context, (List.singleton_inj.mp hop).symm⟩
    · exact .inl ⟨past, context, hp, hs⟩
  · rintro (⟨past, context, hp, hs⟩ | ⟨hs, context, rfl⟩)
    · exact ⟨past, context, hp.trans (List.prefix_append ops [op]), hs⟩
    · exact ⟨ops, context, List.prefix_refl _, hs⟩

section Running

variable (hk : Recorded w e)
include hk

theorem Recorded.notes_beside {op : Operation σ γ} (hb : Beside w e e')
    (hop : ∀ context, op ≠ .advance w context) : Notes h w op e e' where
  recorded := hk.beside hb
  nodup := by
    obtain ⟨listeners, hw⟩ := hb.workflow
    rw [hw]
    exact ⟨fun hn => ⟨hn, fun ha => ha.2.elim fun c hc => hop c hc⟩, fun hn => hn.1⟩
  stuck hs := .inl (hb.stuck.mp hs)

/-- A stuck workflow that leaves its current step behind once more is as stuck as before. -/
theorem Recorded.left_again (hs : Stuck w e) :
    Recorded w (e.mapWorkflow w (·.left (e.workflow w).current)) ∧
      ¬((e.workflow w).left (e.workflow w).current).history.Nodup := by
  have hself := workflow_mapWorkflow_self (e := e) (·.left (e.workflow w).current) hk.hasWorkflow
  have hlive : (e.workflow w).state.isTerminal = false := by
    rw [hs.1]
    rfl
  obtain ⟨-, ho, t, ht, hbar⟩ := hk.barred hlive hs.2
  have hmem : (e.workflow w).current ∈ (e.workflow w).history := List.mem_of_getLast? hs.2
  refine ⟨⟨(hasWorkflow_mapWorkflow ..).mpr hk.hasWorkflow, ?_, ?_, ?_⟩, fun hn => ?_⟩
  · rw [hself]
    intro _ s hs
    rcases List.mem_append.mp hs with hs | hs
    · exact hk.done hlive s hs
    · rw [List.mem_singleton.mp hs]
      exact hk.done hlive _ hmem
  · rw [hself]
    exact fun _ hlast => absurd List.getLast?_concat hlast
  · rw [hself]
    exact fun _ _ => ⟨hs.1, ho, t, ht, hbar⟩
  · -- The current step is the last that is recorded, so that recording it once more repeats it.
    have hn' : ((e.workflow w).history ++ [(e.workflow w).current]).Nodup := hn
    rw [← List.concat_eq_append, List.nodup_concat] at hn'
    exact hn'.1 hmem

theorem Recorded.notes_advance (hq : h.Quiet) (context : γ) :
    Notes h w (.advance w context) e (next h e (.advance w context)) := by
  rw [next_advance]
  -- Advancing repeats a step in the record exactly if the workflow is stuck.
  by_cases hs : Stuck w e
  · obtain ⟨x, hx, -⟩ := hk.advance_stuck (h := h) hs context
    obtain ⟨hrecorded, htwice⟩ := hk.left_again hs
    rw [hx]
    refine ⟨hrecorded, ?_, fun _ => .inl hs⟩
    rw [workflow_mapWorkflow_self _ hk.hasWorkflow]
    exact iff_of_false htwice fun hn => hn.2 ⟨hs, context, rfl⟩
  · have hnodup : ∀ {e' : Engine σ}, Kept (e.workflow w).history.Nodup w e' →
        ((e'.workflow w).history.Nodup ↔ (e.workflow w).history.Nodup ∧
          ¬(Stuck w e ∧ ∃ c, (.advance w context : Operation σ γ) = .advance w c)) :=
      fun hkept => hkept.nodup.trans (and_iff_left fun ha => hs ha.1).symm
    have hends := hk.ends_advance hq hs context
    rcases hr : (advance h w context).run e with ⟨x | a, e'⟩
    · have hf := hends.of_error hr
      refine ⟨hf.recorded, hnodup hf.toKept, fun hs' => .inr ⟨context, x, rfl, ?_, hf.stuck hs'⟩⟩
      rw [hr]
    · have hf := hends.of_ok hr
      exact ⟨hf.recorded, hnodup hf.toKept, fun hs' => absurd hs' hf.free⟩

theorem Recorded.notes_abort (hq : h.Quiet) : Notes h w (.abort w) e (next h e (.abort w)) := by
  show Notes h w (.abort w) e ((abort h w).run e).2
  have hnone : ¬(Stuck w e ∧ ∃ c, (.abort w : Operation σ γ) = .advance w c) := by
    rintro ⟨-, c, hc⟩
    contradiction
  have hr : ∀ {e'}, Replies (e.workflow w).history.Nodup w e' → Notes h w (.abort w) e e' :=
    fun hr => ⟨hr.recorded, hr.nodup.trans (and_iff_left hnone).symm, fun hs => absurd hs hr.free⟩
  refine Ends.state ((hk.ends_abort hq).mono (fun _ _ h₁ => hr h₁) fun _ e' h₁ => ?_)
  rcases h₁ with rfl | h₁
  · exact hk.notes_beside (refl e') fun c hc => by contradiction
  · exact hr h₁

/-- What a direct operation means for the record of a workflow. -/
theorem Recorded.notes (hq : h.Quiet) {op : Operation σ γ} (hop : Direct w e op) :
    Notes h w op e (next h e op) := by
  -- Only advancing or aborting this workflow touches its record; the rest happens beside it.
  cases op with
  | advance v context =>
    by_cases hv : w = v
    · subst hv
      exact hk.notes_advance hq context
    · refine hk.notes_beside ?_ fun c hc => ?_
      · rw [next_advance]
        exact (tolerates_beside hv).advance hq e
      · injection hc with hvw
        exact hv hvw.symm
  | abort v =>
    by_cases hv : w = v
    · subst hv
      exact hk.notes_abort hq
    · refine hk.notes_beside ?_ fun c hc => by contradiction
      refine Ends.state (m := abort h v) ((tolerates_beside hv).abort hq fun t hc => ?_)
      exact beside_mapStep (Step.later_given hc _ t)
  | resolve s o =>
    refine hk.notes_beside ?_ fun c hc => by contradiction
    refine Ends.state (m := resolve s o) ((resolve_ends s o e).mono ?_ fun _ e' he => ?_)
    · rintro _ e' ⟨hc, -, t, he⟩
      exact IsTrans.trans _ _ _ (beside_mapStep (Step.later_given hc o t)) (beside_of_core he.core)
    · rw [he]
      exact refl e
  | reassign s actor =>
    refine hk.notes_beside ?_ fun c hc => by contradiction
    refine Ends.state (m := reassign s actor) ((reassign_ends s actor e).mono (fun _ e' he => ?_)
      fun _ e' he => ?_)
    · have hlater : (e.step s).Later { e.step s with actor } := ⟨rfl, fun hc => ⟨hc, rfl⟩, fun _ hh => hh⟩
      exact IsTrans.trans _ _ _ (beside_mapStep (f := ({ · with actor })) hlater) (beside_of_core he.core)
    · rw [he]
      exact refl e
  | other action => exact hk.notes_beside hop fun c hc => by contradiction
  | start | decide | decideQueued | reassignQueued => exact hop.elim

end Running

/-- A new workflow has recorded nothing. -/
theorem Added.recorded {e₀ : Engine σ} {wf : Workflow} (ha : Added e₀ wf w e) (hh : wf.history = []) :
    Recorded w e := by
  refine ⟨ha.hasWorkflow, ?_, ?_, ?_⟩ <;> rw [ha.workflow, hh]
  · exact fun _ _ hs => absurd hs List.not_mem_nil
  · exact fun _ _ => List.not_mem_nil
  · exact fun _ hl => by contradiction

/-- No step is recorded twice exactly as long as no stuck workflow is advanced. A workflow gets stuck when
an `advance` fails at the successor, and then every further one fails there and records the current step
once more. -/
theorem recorded_once_iff (hq : h.Quiet) {e₀ : Engine σ} {key : String} {first : StepId}
    {owner : Option Actor} {id : Int} {c : Context}
    (made : (addWorkflow key first owner id c).run e₀ = (.ok w, e))
    {ops : List (Operation σ γ)} (hops : Along h (Direct w) e ops) :
    (((runs h e ops).workflow w).history.Nodup ↔ ¬Retried h w e ops) ∧
    (∀ past op, past ++ [op] <+: ops → ¬Stuck w (runs h e past) → Stuck w (runs h e (past ++ [op])) →
      ∃ context x, op = .advance w context ∧
        ((advance h w context).run (runs h e past)).1 = .error x ∧ x.OfSuccessor) ∧
    ∀ past, past <+: ops → Stuck w (runs h e past) → ∀ context, ∃ x,
      (advance h w context).run (runs h e past) = (.error x, (runs h e past).mapWorkflow w
        (·.left ((runs h e past).workflow w).current)) ∧ x.OfSuccessor := by
  have hnew := (added_of_made made).recorded rfl
  have hk : ∀ past, past <+: ops → Recorded w (runs h e past) := by
    rintro past ⟨rest, rfl⟩
    exact runs_invariant (fun e op hk hop => (hk.notes hq hop).recorded) hnew ((along_append ..).mp hops).1
  refine ⟨?_, fun past op hp hfree hs => ?_, fun past hp hs context => ?_⟩
  · -- By induction on the run: the operation that is added repeats a step, or none does.
    refine runs_induction (P := fun ops => ((runs h e ops).workflow w).history.Nodup ↔
      ¬Retried h w e ops) ?_ (fun ops op hops hop ih => ?_) hops
    · rw [runs_nil, (added_of_made made).workflow]
      refine iff_of_true List.nodup_nil ?_
      rintro ⟨past, context, hp, -⟩
      simpa using List.prefix_nil.mp hp
    · have hkept := runs_invariant (fun e op hk hop => (hk.notes hq hop).recorded) hnew hops
      rw [runs_concat, (hkept.notes hq hop).nodup, ih, retried_concat, not_or]
  · have hpast := (List.prefix_append past [op]).trans hp
    obtain ⟨rest, rfl⟩ := hp
    have hop := ((along_concat ..).mp ((along_append ..).mp hops).1).2
    rw [runs_concat] at hs
    exact (((hk past hpast).notes hq hop).stuck hs).resolve_left hfree
  · exact (hk past hp).advance_stuck hs context

/-! ## A round trip -/

def roundSteps : Engine (List StepId) where
  steps := #[(Step.task "Task" "out" none).withSuccessor .complete (some ⟨1⟩),
    (Step.task "Task" "back" none).withSuccessor .complete (some ⟨0⟩)]
  clock := .counter 1 1
  host := []

def roundTrip : Engine (List StepId) := ((addWorkflow "trip" ⟨0⟩ none 1 []).run roundSteps).2

def outward : List (Operation (List StepId) Unit) := [.other (listenTo ⟨0⟩ (.observer ⟨0⟩)), .advance ⟨0⟩ ()]

/-- The round trip is stuck on its way back, with each task recorded once. -/
theorem roundTrip_once :
    ((runs loggingHooks roundTrip outward).workflow ⟨0⟩).history = [⟨0⟩, ⟨1⟩] ∧
    Stuck ⟨0⟩ (runs loggingHooks roundTrip outward) ∧ ¬Retried loggingHooks ⟨0⟩ roundTrip outward := by
  have hhistory : ((runs loggingHooks roundTrip outward).workflow ⟨0⟩).history = [⟨0⟩, ⟨1⟩] := by
    decide +kernel
  have hstuck : ((runs loggingHooks roundTrip outward).workflow ⟨0⟩).state = .running ∧
      ((runs loggingHooks roundTrip outward).workflow ⟨0⟩).current = ⟨1⟩ := by
    decide +kernel
  have hdirect : Along loggingHooks (Direct ⟨0⟩) roundTrip outward := ⟨beside_listenTo _ _, trivial, trivial⟩
  have honce := (recorded_once_iff quiet_loggingHooks
    (show (addWorkflow "trip" ⟨0⟩ none 1 []).run roundSteps = (.ok ⟨0⟩, roundTrip) from rfl)
    hdirect).1
  refine ⟨hhistory, ⟨hstuck.1, ?_⟩, honce.mp ?_⟩
  · rw [hhistory, hstuck.2]
    rfl
  · rw [hhistory]
    decide

/-- Advanced again, the round trip has its second task in the history twice. -/
theorem roundTrip_twice : ¬∀ ops : List (Operation (List StepId) Unit),
    Along loggingHooks (Direct ⟨0⟩) roundTrip ops →
      ((runs loggingHooks roundTrip ops).workflow ⟨0⟩).history.Nodup := by
  intro hall
  have hhistory : ((runs loggingHooks roundTrip [.advance ⟨0⟩ (), .advance ⟨0⟩ ()]).workflow
      ⟨0⟩).history = [⟨0⟩, ⟨1⟩, ⟨1⟩] := by decide +kernel
  have hnodup := hall [.advance ⟨0⟩ (), .advance ⟨0⟩ ()] ⟨trivial, trivial, trivial⟩
  rw [hhistory] at hnodup
  exact absurd hnodup (by decide)

end Engine

end ApprovalFlow
