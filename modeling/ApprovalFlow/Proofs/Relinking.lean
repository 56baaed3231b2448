import ApprovalFlow.Proofs.ApprovalGraph
import ApprovalFlow.Proofs.Records

/-!
# Edges that have been decided on

The outcome of a completed step is final, so the edge under it is decided on, and only to register that
outcome once more can move it (`replaces`). As long as that is not done, all that a workflow refers to
descends from its first step along edges that were decided on, however the other edges change in the
meantime (`Rooted`); so a record can be taken (`Rooted.recordable`). A run is tended to find out whether it
was done, and what there was to be seen on the way.
-/

namespace ApprovalFlow

/-- A host that is tended: whether an edge that had been decided on was replaced, and what has been seen of
the engine, each sight with what was known of that at the time. -/
structure Tended (σ : Type) where
  inner : σ
  relinked : Bool := false
  sights : List (Engine Bool) := []

def Workflow.course (wf : Workflow) : StepId × StepId × Option StepId × List StepId :=
  (wf.first, wf.current, wf.previous, wf.history)

theorem Successor.find?_congr {o p : Outcome} (h : o.same p = true) (l : List Successor) :
    find? o l = find? p l := by
  have hop : ∀ q : Outcome, q.same o = q.same p := fun q => by
    unfold Outcome.same
    rw [Outcome.same_iff.mp h]
  induction l with
  | nil => rfl
  | cons x l ih => rw [find?, find?, hop, ih]

/-- What follows the outcome of a step stays if another outcome is registered, or one for the first time. -/
theorem Step.next?_withSuccessor {st : Step} {o : Outcome} (target : Option StepId) {t : StepId}
    (ho : (st.outcome.same o && st.offers o) = false) (ht : st.next? st.outcome = some t) :
    (st.withSuccessor o target).next? st.outcome = some t := by
  have hsame : o.same st.outcome = false := by
    refine Bool.eq_false_iff.mpr fun h => ?_
    have h' : st.outcome.same o = true := Outcome.same_iff.mpr (Outcome.same_iff.mp h).symm
    -- The outcome has a successor already, so this would not be the first time.
    rw [h', Bool.true_and, Step.offers, ← Successor.find?_congr h'] at ho
    unfold Step.next? at ht
    rw [Option.not_isSome_iff_eq_none.mp (Bool.eq_false_iff.mp ho)] at ht
    contradiction
  have hfind := Successor.find?_register st.successors o st.outcome target
  rw [hsame] at hfind
  unfold Step.next? at ht ⊢
  obtain ⟨x, hx, hxt⟩ := Option.bind_eq_some_iff.mp ht
  rw [hx] at hfind
  obtain ⟨y, hy, hyx⟩ := Option.map_eq_some_iff.mp hfind
  exact Option.bind_eq_some_iff.mpr ⟨y, hy, hyx.trans hxt⟩

namespace Engine

variable {σ : Type}

/-- The step `t` comes after the step `s` along edges that have been decided on. -/
def Descends (e : Engine σ) : StepId → StepId → Prop := Relation.ReflTransGen (Followed e)

structure Rooted (e : Engine σ) (wf : Workflow) : Prop where
  current : e.Descends wf.first wf.current
  previous : ∀ s ∈ wf.previous, e.Descends wf.first s
  history : ∀ s ∈ wf.history, e.Descends wf.first s

/-- All that the workflow refers to can be reached along the edges that there are, and a record can be
taken of it. -/
structure Recordable (e : Engine σ) (w : WorkflowId) : Prop where
  current : e.Leads (e.workflow w).first (e.workflow w).current
  previous : ∀ s ∈ (e.workflow w).previous, e.Leads (e.workflow w).first s
  history : ∀ s ∈ (e.workflow w).history, e.Leads (e.workflow w).first s
  recorded : ∃ r, recordWorkflow e w = .ok r

/-- Whether to register what follows the outcome `o` of the step `s` replaces an edge that has been decided
on: the step is completed, with this outcome, and the outcome is registered. -/
def replaces (e : Engine σ) (s : StepId) (o : Outcome) : Bool :=
  (e.step s).isCompleted && ((e.step s).outcome.same o && (e.step s).offers o)

variable {e : Engine σ} {w : WorkflowId} {s t : StepId}

theorem Descends.leads (h : e.Descends s t) : e.Leads s t := by
  induction h with
  | refl => exact .refl
  | tail _ hf ih => exact ih.tail (mem_targets_of_next? hf.2)

theorem Descends.mono {τ : Type} {e' : Engine τ} (h : e.Descends s t)
    (hf : ∀ s t, Followed e s t → Followed e' s t) : e'.Descends s t := by
  induction h with
  | refl => exact .refl
  | tail _ hst ih => exact ih.tail (hf _ _ hst)

theorem Rooted.recordable (h : e.Rooted (e.workflow w)) : e.Recordable w where
  current := h.current.leads
  previous s hs := (h.previous s hs).leads
  history s hs := (h.history s hs).leads
  recorded := by
    refine exists_record_iff.mpr ⟨fun s hs => ?_, fun s hs => (h.previous s hs).leads,
      fun s hs => (h.history s hs).leads⟩
    unfold Workflow.current? at hs
    split at hs
    · contradiction
    · rw [← Option.some.inj hs]
      exact h.current.leads

/-- A workflow that has just been made refers to nothing but its first step. -/
theorem rooted_of_new {wf : Workflow} (hc : wf.current = wf.first)
    (hp : wf.previous = none) (hh : wf.history = []) : e.Rooted wf := by
  refine ⟨hc ▸ .refl, fun s hs => ?_, fun s hs => ?_⟩
  · rw [hp] at hs
    contradiction
  · rw [hh] at hs
    contradiction

theorem Rooted.congr {wf wf' : Workflow} (h : e.Rooted wf) (hc : wf'.course = wf.course) :
    e.Rooted wf' := by
  have hf : wf'.first = wf.first := congrArg (·.1) hc
  have hcur : wf'.current = wf.current := congrArg (·.2.1) hc
  have hp : wf'.previous = wf.previous := congrArg (·.2.2.1) hc
  have hh : wf'.history = wf.history := congrArg (·.2.2.2) hc
  refine ⟨?_, ?_, ?_⟩
  · rw [hf, hcur]
    exact h.current
  · rw [hf, hp]
    exact h.previous
  · rw [hf, hh]
    exact h.history

theorem Rooted.mono {τ : Type} {e' : Engine τ} {wf : Workflow} (h : e.Rooted wf)
    (hf : ∀ s t, Followed e s t → Followed e' s t) : e'.Rooted wf where
  current := h.current.mono hf
  previous s hs := (h.previous s hs).mono hf
  history s hs := (h.history s hs).mono hf

/-- A step that descends from the first one may be left behind. -/
theorem Rooted.left {wf : Workflow} (h : e.Rooted wf) (hs : e.Descends wf.first s) :
    e.Rooted (wf.left s) where
  current := h.current
  previous := h.previous
  history t ht := by
    rcases List.mem_append.mp ht with ht | ht
    · exact h.history t ht
    · rw [List.mem_singleton.mp ht]
      exact hs

/-- From a completed step that descends from the first one, the workflow may go on to what follows it. -/
theorem Rooted.moved {wf : Workflow} (h : e.Rooted wf) (hs : e.Descends wf.first s)
    (ht : Followed e s t) : e.Rooted (wf.moved s t) where
  current := Relation.ReflTransGen.tail hs ht
  previous _ hu := Option.some.inj hu ▸ hs
  history := h.history

end Engine

/-! ## What keeps an engine tended -/

namespace Tended

open Act Engine

variable {σ α : Type}

def sight (e : Engine (Tended σ)) : Engine Bool := { e with host := e.host.relinked }

def takeSight : Act (Tended σ) Unit := do
  let e ← get
  updateHost fun d => { d with sights := d.sights ++ [sight e] }

/-- Performs an action, and marks the run if `p` tells that it replaces an edge that was decided on. -/
def marking (p : Engine (Tended σ) → Bool) (m : Act (Tended σ) α) : Act (Tended σ) α := do
  let e ← get
  updateHost fun d => { d with relinked := d.relinked || p e }
  m

/-- The engine is tended as it should be: while no edge that had been decided on was replaced, all
workflows were rooted. -/
structure Tends (e : Engine (Tended σ)) : Prop where
  rooted : e.host.relinked = false → ∀ w, e.Rooted (e.workflow w)
  sights : ∀ e' ∈ e.host.sights, e'.host = false → ∀ w, e'.Rooted (e'.workflow w)

/-- Workflows are there as before and begin with the same step, and unless an edge that had been decided on
was replaced, all of these edges are there as before. -/
structure Grows (e e' : Engine (Tended σ)) : Prop where
  hasWorkflow : ∀ w, e.HasWorkflow w → e'.HasWorkflow w
  first : ∀ w, e.HasWorkflow w → (e'.workflow w).first = (e.workflow w).first
  relinked : e'.host.relinked = false → e.host.relinked = false
  followed : e'.host.relinked = false → ∀ s t, Followed e s t → Followed e' s t

structure Reaches (e e' : Engine (Tended σ)) : Prop extends Grows e e' where
  tends : Tends e'

def Keeps (e e' : Engine (Tended σ)) : Prop := Tends e → Reaches e e'

def KeepsFor (w : WorkflowId) (e e' : Engine (Tended σ)) : Prop := e.HasWorkflow w → Keeps e e'

variable {e e' e'' : Engine (Tended σ)} {w : WorkflowId} {s t : StepId}

theorem grows_refl (e : Engine (Tended σ)) : Grows e e := ⟨fun _ => id, fun _ _ => rfl, id, fun _ _ _ => id⟩

theorem Grows.trans (h : Grows e e') (h' : Grows e' e'') : Grows e e'' where
  hasWorkflow v hv := h'.hasWorkflow v (h.hasWorkflow v hv)
  first v hv := (h'.first v (h.hasWorkflow v hv)).trans (h.first v hv)
  relinked hr := h.relinked (h'.relinked hr)
  followed hr s t hf := h'.followed hr s t (h.followed (h'.relinked hr) s t hf)

theorem Reaches.trans (h : Reaches e e') (h' : Reaches e' e'') : Reaches e e'' :=
  ⟨h.toGrows.trans h'.toGrows, h'.tends⟩

theorem Tends.reaches (h : Tends e) : Reaches e e := ⟨grows_refl e, h⟩

instance : IsPreorder (Engine (Tended σ)) Keeps where
  refl _ := Tends.reaches
  trans _ _ _ h h' ht := (h ht).trans (h' (h ht).tends)

instance : IsPreorder (Engine (Tended σ)) (KeepsFor w) where
  refl e _ := refl e
  trans _ _ _ h h' hw ht := (h hw ht).trans (h' ((h hw ht).hasWorkflow w hw) (h hw ht).tends)

/-- A step that descends from the first one of a workflow still does. -/
theorem Grows.descends (h : Grows e e') (hw : e.HasWorkflow w) (hr : e'.host.relinked = false)
    (hs : e.Descends (e.workflow w).first s) : e'.Descends (e'.workflow w).first s := by
  rw [h.first w hw]
  exact hs.mono (h.followed hr)

/-- Steps may change as long as the edges that have been decided on stay. -/
theorem keeps_of_followed (hw : e'.workflows = e.workflows) (hh : e'.host = e.host)
    (hf : e.host.relinked = false → ∀ s t, Followed e s t → Followed e' s t) : Keeps e e' := by
  intro ht
  refine ⟨⟨fun v => (hasWorkflow_of_workflows hw v).mpr, fun v _ => ?_, ?_, ?_⟩, fun hr v => ?_, ?_⟩
  · rw [workflow_of_workflows hw]
  · rw [hh]
    exact id
  · rw [hh]
    exact hf
  · rw [hh] at hr
    rw [workflow_of_workflows hw]
    exact (ht.rooted hr v).mono (hf hr)
  · rw [hh]
    exact ht.sights

theorem keeps_of_same (hs : e'.steps = e.steps) (hw : e'.workflows = e.workflows)
    (hh : e'.host = e.host) : Keeps e e' := by
  refine keeps_of_followed hw hh fun _ s t hf => ?_
  unfold Followed
  rw [step_of_steps hs]
  exact hf

/-- A step may change in whatever way leaves the edge that has been decided on. -/
theorem keeps_mapStep {f : Step → Step}
    (hf : e.host.relinked = false → (e.step s).isCompleted = true → (f (e.step s)).isCompleted = true ∧
      ∀ t, (e.step s).next? (e.step s).outcome = some t →
        (f (e.step s)).next? (f (e.step s)).outcome = some t) : Keeps e (e.mapStep s f) := by
  refine keeps_of_followed rfl rfl fun hr u t hu => ?_
  unfold Followed
  rw [step_mapStep]
  split
  · rename_i hus
    rw [hus.1] at hu ⊢
    obtain ⟨hc, hn⟩ := hf hr hu.1
    exact ⟨hc, hn t hu.2⟩
  · exact hu

theorem keeps_mapStep_of_same {f : Step → Step} (hs : (f (e.step s)).successors = (e.step s).successors)
    (hst : (f (e.step s)).state = (e.step s).state) (ho : (f (e.step s)).outcome = (e.step s).outcome) :
    Keeps e (e.mapStep s f) := by
  refine keeps_mapStep fun _ hc => ⟨?_, fun t ht => ?_⟩
  · unfold Step.isCompleted at hc ⊢
    rwa [hst]
  · unfold Step.next? at ht ⊢
    rwa [hs, ho]

/-- A workflow may change in whatever way leaves it rooted where it begins. -/
theorem keeps_mapWorkflow {f : Workflow → Workflow}
    (hfirst : (f (e.workflow w)).first = (e.workflow w).first)
    (hr : e.host.relinked = false → e.Rooted (e.workflow w) → e.Rooted (f (e.workflow w))) :
    Keeps e (e.mapWorkflow w f) := by
  intro ht
  refine ⟨⟨fun v => (hasWorkflow_mapWorkflow ..).mpr, fun v _ => workflow_mapWorkflow_eq hfirst v, id,
    fun _ _ _ => id⟩, fun hrel v => ?_, ht.sights⟩
  rw [workflow_mapWorkflow]
  split
  · rename_i hv
    rw [hv.1]
    exact (hr hrel (ht.rooted hrel w)).mono fun _ _ => id
  · exact (ht.rooted hrel v).mono fun _ _ => id

theorem keeps_mapWorkflow_of_course {f : Workflow → Workflow}
    (hc : (f (e.workflow w)).course = (e.workflow w).course) : Keeps e (e.mapWorkflow w f) :=
  keeps_mapWorkflow (congrArg (·.1) hc) fun _ hr => hr.congr hc

theorem always_updateWorkflow {f : Workflow → Workflow} (hf : ∀ wf : Workflow, (f wf).course = wf.course) :
    (updateWorkflow w f : Act (Tended σ) Unit).Always Keeps :=
  always_modify fun e => keeps_mapWorkflow_of_course (hf (e.workflow w))

theorem bears_keeps : Bears (Keeps (σ := σ)) where
  off hs hw _ hh _ := keeps_of_same hs hw hh
  work s f e hf := by
    refine keeps_mapStep fun _ hc => ⟨(hf.final hc).1, fun t ht => ?_⟩
    unfold Step.next? at ht ⊢
    rwa [(hf.final hc).2, Step.successors_of_frame hf.frame]

/-- Where a new step comes nothing has been decided on. -/
theorem keeps_added (st : Step) : Keeps e (e.added st) := by
  refine keeps_of_followed rfl rfl fun _ s t hf => ?_
  unfold Followed
  rw [step_added, if_neg]
  · exact hf
  · rintro rfl
    have hn : e.step e.nextStep = default := step_of_not_hasStep (Nat.lt_irrefl _)
    have hc := hf.1
    rw [hn] at hc
    contradiction

/-- The mark is set before an edge that has been decided on is replaced. -/
theorem marking_keeps {p : Engine (Tended σ) → Bool} {m : Act (Tended σ) α}
    (hp : ∀ (e : Engine (Tended σ)) d, p { e with host := d } = p e)
    (hm : ∀ e, Tends e → (e.host.relinked = false → p e = false) →
      m.Ends e (fun _ => Reaches e) (fun _ => Reaches e)) : (marking p m).Always Keeps := by
  intro e ht
  refine Ends.state (P := Reaches e) ?_
  obtain ⟨e₁, he₁⟩ : ∃ e₁ : Engine (Tended σ),
      e₁ = { e with host := { e.host with relinked := e.host.relinked || p e } } := ⟨_, rfl⟩
  have hmarked : e₁.host.relinked = false → e.host.relinked = false ∧ p e = false := by
    rw [he₁]
    exact Bool.or_eq_false_iff.mp
  have hfol : ∀ s t, Followed e s t → Followed e₁ s t := by
    rw [he₁]
    exact fun _ _ => id
  -- With the mark set nothing has to descend from the first step any more; without it nothing has
  -- changed.
  have h₁ : Reaches e e₁ := by
    refine ⟨⟨?_, ?_, fun hr => (hmarked hr).1, fun _ => hfol⟩, fun hr v => ?_, ?_⟩
    · rw [he₁]
      exact fun _ => id
    · rw [he₁]
      exact fun _ _ => rfl
    · have hroot := (ht.rooted (hmarked hr).1 v).mono hfol
      rw [he₁] at hroot ⊢
      exact hroot
    · rw [he₁]
      exact ht.sights
  have hp₁ : p e₁ = p e := by
    rw [he₁]
    exact hp e _
  unfold marking
  rw [ends_bind, ends_get]
  show m.Ends { e with host := { e.host with relinked := e.host.relinked || p e } } _ _
  rw [← he₁]
  exact (hm e₁ h₁.tends fun hr => hp₁.trans (hmarked hr).2).mono (fun _ _ h₂ => h₁.trans h₂)
    fun _ _ h₂ => h₁.trans h₂

theorem keeps_withSuccessor {o : Outcome} (hr : e.host.relinked = false → e.replaces s o = false)
    (target : Option StepId) : Keeps e (e.mapStep s (·.withSuccessor o target)) := by
  refine keeps_mapStep fun hrel hc => ⟨hc, fun t ht => Step.next?_withSuccessor target ?_ ht⟩
  have h := hr hrel
  unfold replaces at h
  rwa [hc, Bool.true_and] at h

theorem takeSight_keeps : (takeSight : Act (Tended σ) Unit).Always Keeps := by
  intro e ht
  refine ⟨⟨fun _ => id, fun _ _ => rfl, id, fun _ _ _ => id⟩, fun hr v => ?_, fun e' he' => ?_⟩
  · exact (ht.rooted hr v).mono fun _ _ => id
  · rcases List.mem_append.mp he' with he' | he'
    · exact ht.sights e' he'
    · rw [List.mem_singleton.mp he']
      exact fun hr v => (ht.rooted hr v).mono fun _ _ => id

end Tended

end ApprovalFlow
