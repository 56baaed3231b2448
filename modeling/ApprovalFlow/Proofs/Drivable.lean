import ApprovalFlow.Proofs.Turns

/-!
# Workflows that can be driven on

A step is proper if it has not been put to its actor without having been started. As long as that holds of
the steps ahead of a workflow, to start a step and to execute it are two things that can be told apart by
the step alone. It is kept by driving the workflow: only the decision that the workflow waits for is left
out, which is behind it once it has been answered.
-/

namespace ApprovalFlow

def Step.Proper (st : Step) : Prop := st.isStarted = false → st.isPending = false

instance (st : Step) : Decidable st.Proper := inferInstanceAs (Decidable (_ → _))

namespace Step

variable {st : Step}

theorem proper_of_completed (h : st.isCompleted = true) : st.Proper := by
  intro _
  unfold isPending
  cases st.decision with
  | none => rfl
  | some d => simp only [h, Bool.not_true, Bool.and_false]

theorem proper_of_not_decision (h : st.isDecision = false) : st.Proper := by
  intro _
  unfold isPending
  unfold isDecision at h
  rw [Option.isSome_eq_false_iff, Option.isNone_iff_eq_none] at h
  rw [h]

theorem proper_given {o : Outcome} {t : Instant} (h : st.Proper) : (st.given o t).Proper := by
  cases ho : o.completion
  case true => exact proper_of_completed (isCompleted_given ho t)
  case false =>
    unfold given
    rw [ho]
    exact h

end Step

namespace Engine

open Act

variable {σ γ : Type} {h : Hooks σ γ} {seen : σ → List StepId} {own : StepId → Prop} {w : WorkflowId}
  {n : Nat} {context : γ} {e e₁ e' : Engine σ}

/-- The workflow `w` can be driven along the steps that `own` lists, in an engine with `n` steps: they are
there and closed under successors, and proper but for the decision that the workflow waits for. -/
structure Drivable (own : StepId → Prop) (w : WorkflowId) (n : Nat) (e : Engine σ) : Prop where
  hasWorkflow : e.HasWorkflow w
  hasStep : ∀ s, own s → e.HasStep s
  closed : ∀ s, own s → ∀ t ∈ e.targets s, own t
  inside : own (e.workflow w).current
  size : e.steps.size = n
  proper : ∀ s, own s → (s = (e.workflow w).current → (e.workflow w).state ≠ .waiting) →
    (e.step s).Proper

structure EnRoute (own : StepId → Prop) (w : WorkflowId) (n : Nat) (e : Engine σ) : Prop
    extends Drivable own w n e where
  running : (e.workflow w).state = .running

/-! ## Changes -/

/-- The graph is the same. -/
theorem Drivable.change (hd : Drivable own w n e) (hw : e'.HasWorkflow w)
    (hsize : e'.steps.size = e.steps.size) (htargets : ∀ s, e'.targets s = e.targets s)
    (hin : own (e'.workflow w).current)
    (hp : ∀ s, own s → (s = (e'.workflow w).current → (e'.workflow w).state ≠ .waiting) →
      (e'.step s).Proper) : Drivable own w n e' where
  hasWorkflow := hw
  hasStep s hs := (hasStep_of_size hsize s).mpr (hd.hasStep s hs)
  closed s hs := by rw [htargets]; exact hd.closed s hs
  inside := hin
  size := hsize.trans hd.size
  proper := hp

theorem Drivable.of_same (hd : Drivable own w n e) (hs : e'.steps = e.steps)
    (hw : e'.workflows = e.workflows) : Drivable own w n e' := by
  have hwf := workflow_of_workflows hw w
  have hst := step_of_steps hs
  refine hd.change ((hasWorkflow_of_workflows hw w).mpr hd.hasWorkflow) (by rw [hs])
    (fun s => targets_of_successors (by rw [hst])) (by rw [hwf]; exact hd.inside) fun s ho hc => ?_
  rw [hst]
  rw [hwf] at hc
  exact hd.proper s ho hc

/-- The current step has been worked on: it stays proper, or the workflow waits for it. -/
theorem Drivable.of_worked (hd : Drivable own w n e) (hw : Worked seen (e.workflow w).current e e₁)
    (hs : e'.steps = e₁.steps) (hw' : e'.HasWorkflow w)
    (hcur : (e'.workflow w).current = (e.workflow w).current)
    (hp : (e'.workflow w).state ≠ .waiting → (e₁.step (e.workflow w).current).Proper) :
    Drivable own w n e' := by
  have hst := step_of_steps hs
  refine hd.change hw' ?_ (fun s => ?_) (by rw [hcur]; exact hd.inside) fun s ho hc => ?_
  · rw [hs, hw.size]
  · exact (targets_of_successors (by rw [hst])).trans (hw.targets s)
  · rw [hst]
    rw [hcur] at hc
    by_cases h : s = (e.workflow w).current
    · rw [h]
      exact hp (hc h)
    · rw [hw.others s h]
      exact hd.proper s ho fun h' => absurd h' h

/-- The workflow changes, but not where it stands. -/
theorem Drivable.of_mapWorkflow (hd : Drivable own w n e) {f : Workflow → Workflow}
    (hw : Worked seen (e.workflow w).current e e₁) (he : e'.Alike (e₁.mapWorkflow w f))
    (hcur : (f (e.workflow w)).current = (e.workflow w).current)
    (hp : (f (e.workflow w)).state ≠ .waiting → (e₁.step (e.workflow w).current).Proper) :
    Drivable own w n e' := by
  have hw₁ : e₁.HasWorkflow w := (hw.hasWorkflow w).mpr hd.hasWorkflow
  have hwf : e'.workflow w = f (e.workflow w) := by
    rw [workflow_of_core he.core, workflow_mapWorkflow_self _ hw₁, hw.workflow]
  refine hd.of_worked hw (congrArg Core.steps he.core) ?_ (by rw [hwf, hcur]) (by rw [hwf]; exact hp)
  exact (hasWorkflow_of_core he.core w).mpr ((hasWorkflow_mapWorkflow e₁ w w f).mpr hw₁)

theorem EnRoute.proper_all (hu : EnRoute own w n e) {s : StepId} (hs : own s) : (e.step s).Proper :=
  hu.proper s hs fun _ => by rw [hu.running]; nofun

/-! ## Driving -/

abbrev Stays (own : StepId → Prop) (w : WorkflowId) (n : Nat) : Progress → Engine σ → Prop :=
  after (fun _ => Drivable own w n) (EnRoute own w n)

section Driving

variable (hq : h.Quiet)
include hq

theorem Drivable.ends_emit {Q : Unit → Engine σ → Prop} (hd : Drivable own w n e) {kind : EventKind}
    (hQ : ∀ e', Drivable own w n e' → Q () e') : (emit h w kind).Ends e Q (fun _ _ => True) :=
  ((emit_told hq h.logs_nil w kind).ends e).mono
    (fun _ e' ht => hQ e' (hd.of_same ht.steps ht.workflows)) fun _ _ _ => trivial

/-- After the current step has been worked on, whatever the turn ends in leaves the workflow drivable. -/
theorem EnRoute.turnEnds (hu : EnRoute own w n e) (hw : Worked seen (e.workflow w).current e e₁) :
    TurnEnds h w (e.workflow w).current e₁ (Stays own w n) (fun _ _ => True) := by
  have hd := hu.toDrivable
  have hwf := hw.workflow w
  have hw₁ : e₁.HasWorkflow w := (hw.hasWorkflow w).mpr hu.hasWorkflow
  constructor
  case failed => exact fun _ => trivial
  case again =>
    intro _ hdec
    exact hd.of_worked hw rfl hw₁ (by rw [hwf]) fun _ => Step.proper_of_not_decision hdec
  case waits =>
    intro _ _ e' he _
    exact (hd.of_mapWorkflow hw he rfl fun h => absurd rfl h).ends_emit hq fun _ hd' => hd'
  case ends =>
    intro hc state kind _ e' he _
    exact (hd.of_mapWorkflow hw he rfl fun _ => Step.proper_of_completed hc).ends_emit hq fun _ hd' => hd'
  case blocked => exact fun _ _ _ _ => trivial
  case unbound => exact fun _ _ _ _ _ => trivial
  case follows =>
    intro hc _ t ht _ e' he _
    -- The step that follows is bound, and is the current one from now on.
    have hcur := workflow_of_follows he hw₁
    have hown : own t := by
      have htarget := mem_targets_of_next? ht
      rw [hw.targets] at htarget
      exact hd.closed _ hd.inside t htarget
    have hproper : ∀ s, own s → (e₁.step s).Proper := by
      intro s hs
      by_cases h : s = (e.workflow w).current
      · rw [h]
        exact Step.proper_of_completed hc
      · rw [hw.others s h]
        exact hu.proper_all hs
    refine ⟨hd.change (hasWorkflow_of_follows he hw₁) ((size_of_follows he).trans hw.size) (fun s => ?_)
      ?_ fun s hs _ => ?_, ?_⟩
    · exact (targets_of_successors (step_of_follows he (fun _ _ => rfl) s)).trans (hw.targets s)
    · rw [hcur]
      exact hown
    · intro hn
      rw [step_of_follows he (g := Step.isPending) fun _ _ => rfl]
      apply hproper s hs
      unfold Step.isStarted at hn ⊢
      rwa [← step_of_follows he (g := Step.startTime) fun _ _ => rfl]
    · rw [hcur]
      show (e₁.workflow w).state = .running
      rw [hwf, hu.running]

/-- A turn that succeeds leaves the workflow drivable. -/
theorem EnRoute.ends_turn (hu : EnRoute own w n e) :
    (turn h w context).Ends e (Stays own w n) (fun _ _ => True) :=
  turn_ends hq h.logs_nil hu.running hu.hasWorkflow (fun _ hw => hu.turnEnds hq hw) context

/-- Once the workflow has been set running, its listeners are told, and turns may come. -/
theorem Drivable.ends_resumed (hd : Drivable own w n e) {t : Instant} {kind : EventKind}
    (hs : (e.workflow w).state = .created ∨
      (e.workflow w).state = .waiting ∧ (e.step (e.workflow w).current).isCompleted = true)
    (he : e'.Alike (e.mapWorkflow w (·.resumed t))) :
    (emit h w kind).Ends e' (fun _ => EnRoute own w n) (fun _ _ => True) := by
  have hproper : (e.step (e.workflow w).current).Proper := by
    rcases hs with hs | ⟨-, hc⟩
    · exact hd.proper _ hd.inside fun _ => by rw [hs]; nofun
    · exact Step.proper_of_completed hc
  have hw : Worked (fun _ => []) (e.workflow w).current e e := refl e
  have hr : Drivable own w n e' := hd.of_mapWorkflow hw he rfl fun _ => hproper
  have hstate : (e'.workflow w).state = .running := by
    rw [workflow_of_core he.core, workflow_mapWorkflow_self _ hd.hasWorkflow]
    rfl
  refine ((emit_told hq h.logs_nil w kind).ends e').mono (fun _ e₂ ht => ?_) fun _ _ _ => trivial
  exact ⟨hr.of_same ht.steps ht.workflows, by rw [workflow_of_workflows ht.workflows, hstate]⟩

/-- What comes before the first turn leaves the workflow on its way, or there are no turns. -/
theorem Drivable.ends_enter (hd : Drivable own w n e) :
    (enter h w).Ends e (fun goes e' => if goes then EnRoute own w n e' else Drivable own w n e')
      (fun _ _ => True) := by
  unfold enter
  simp only [ends_bind, ends_get, ends_failIf]
  cases hs : (e.workflow w).state with
  | completed => trivial
  | aborted => trivial
  | running => exact ⟨hd, hs⟩
  | created =>
    rw [if_neg (by decide), ends_bind]
    refine ends_moveWorkflow .running (by rw [hs]; rfl) fun e₁ h₁ _ => ?_
    rw [ends_bind, ends_readClock, ends_bind, ends_updateWorkflow, ends_bind]
    have h₂ := h₁.mapWorkflow w ({ · with startTime := e₁.clock.now })
    rw [mapWorkflow_mapWorkflow] at h₂
    refine (hd.ends_resumed hq (t := e₁.clock.now) (.inl hs) ?_).mono (fun _ _ hu => hu) fun _ _ h => h
    exact ((alike_aside _ _ _).mapWorkflow _ _).trans h₂
  | waiting =>
    rw [if_neg (by decide)]
    cases hc : (e.step (e.workflow w).current).isCompleted
    case false => exact hd
    rw [if_pos rfl, ends_bind]
    refine ends_moveWorkflow .running (by rw [hs]; rfl) fun e₁ h₁ _ => ?_
    rw [ends_bind]
    refine (hd.ends_resumed hq (t := (e.workflow w).startTime) (.inr ⟨hs, hc⟩) ?_).mono
      (fun _ _ hu => hu) fun _ _ h => h
    -- A workflow that goes on keeps its start time.
    rw [mapWorkflow_congr (b := ({ · with state := .running })) rfl]
    exact h₁

/-- However `advance` ends, if it succeeds, the workflow is drivable. -/
theorem Drivable.ends_advance (hd : Drivable own w n e) :
    (advance h w context).Ends e (fun _ => Drivable own w n) (fun _ _ => True) := by
  rw [advance_eq_enter, ends_bind]
  refine (hd.ends_enter hq).mono (fun goes e₁ h₁ => ?_) fun _ _ h => h
  cases goes with
  | true => exact traverse_ends (fun _ hu => hu.ends_turn hq) (fun _ _ => trivial) _ h₁
  | false => exact h₁

end Driving

/-- Resolving the current step leaves the workflow drivable. -/
theorem Drivable.ends_resolve (hd : Drivable own w n e) (o : Outcome) :
    (resolve (e.workflow w).current o).Ends e (fun _ => Drivable own w n) (fun _ _ => True) := by
  refine (resolve_ends _ o e).mono ?_ fun _ _ _ => trivial
  rintro _ e' ⟨hc, -, t, he⟩
  have hw : Worked (fun _ => []) (e.workflow w).current e e' :=
    worked_mapStep (·.given o t) (Step.worked_of_frame hc (Step.frame_given ..)) he
  refine hd.of_worked hw rfl ((hw.hasWorkflow w).mpr hd.hasWorkflow) (by rw [hw.workflow]) fun hs => ?_
  rw [step_of_core he.core, step_mapStep_self _ (hd.hasStep _ hd.inside)]
  apply Step.proper_given
  rw [hw.workflow] at hs
  exact hd.proper _ hd.inside fun _ => hs

end Engine

end ApprovalFlow
