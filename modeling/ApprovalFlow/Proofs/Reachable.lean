import ApprovalFlow.Proofs.Walk
import Mathlib.Data.List.Nodup
import Mathlib.Data.List.Perm.Subperm

/-!
# What can be reached

The search along successors lists the steps to which the first one leads, each of them once and the first
one at the head (`reachable_explored`). While it goes on, the steps still to be visited are among those seen,
and what follows the visited ones has been seen (`Exploring`). It comes to an end in time because every step
that it sees, apart from the first, is the end of an edge.
-/

namespace ApprovalFlow.Engine

variable {σ : Type} {e : Engine σ} {first s t : StepId} {found seen toVisit : List StepId}

/-- A search from the step `first`, which has seen some steps and has some of them to visit. -/
structure Exploring (e : Engine σ) (first : StepId) (seen toVisit : List StepId) : Prop where
  begins : seen.head? = some first
  nodup : seen.Nodup
  led : ∀ t ∈ seen, e.Leads first t
  pending : ∀ t ∈ toVisit, t ∈ seen
  closed : ∀ s ∈ seen, s ∉ toVisit → ∀ t ∈ e.targets s, t ∈ seen

/-- What is discovered has been found, and is new; all that has been found is seen afterwards. -/
theorem discover_ends (found seen toVisit : List StepId) :
    ∃ new, discover found (seen, toVisit) = (seen ++ new, toVisit ++ new) ∧ new.Nodup ∧
      (∀ t ∈ new, t ∈ found ∧ t ∉ seen) ∧ ∀ t ∈ found, t ∈ seen ++ new := by
  -- By induction on what has been found; a step that is new is seen when the next ones are looked at.
  induction found generalizing seen toVisit with
  | nil => exact ⟨[], by simp [discover], List.nodup_nil, by simp, by simp⟩
  | cons t found ih =>
    rw [discover]
    by_cases ht : t ∈ seen
    · obtain ⟨new, heq, hnodup, hnew, hall⟩ := ih seen toVisit
      rw [if_pos (by simpa using ht)]
      refine ⟨new, heq, hnodup, fun u hu => ?_, fun u hu => ?_⟩
      · exact ⟨List.mem_cons_of_mem t (hnew u hu).1, (hnew u hu).2⟩
      · rcases List.mem_cons.mp hu with rfl | hu
        · exact List.mem_append_left new ht
        · exact hall u hu
    · obtain ⟨new, heq, hnodup, hnew, hall⟩ := ih (seen ++ [t]) (toVisit ++ [t])
      have htn : t ∉ new := fun h => (hnew t h).2 (by simp)
      rw [if_neg (by simpa using ht)]
      refine ⟨t :: new, by simpa using heq, List.nodup_cons.mpr ⟨htn, hnodup⟩, fun u hu => ?_,
        fun u hu => ?_⟩
      · rcases List.mem_cons.mp hu with rfl | hu
        · exact ⟨List.mem_cons_self, ht⟩
        · refine ⟨List.mem_cons_of_mem t (hnew u hu).1, fun hus => (hnew u hu).2 ?_⟩
          exact List.mem_append_left [t] hus
      · rcases List.mem_cons.mp hu with rfl | hu
        · simp
        · simpa using hall u hu

theorem mem_edgeEnds (h : t ∈ e.targets s) : t ∈ e.edgeEnds := by
  by_cases hs : e.HasStep s
  · have hstep : e.step s ∈ e.steps.toList := by
      unfold Engine.step
      rw [Array.getD_eq_getD_getElem?, Array.getElem?_eq_getElem hs]
      exact Array.getElem_mem_toList hs
    exact List.mem_flatMap.mpr ⟨e.step s, hstep, h⟩
  · rw [targets_of_not_hasStep hs] at h
    cases h

/-- To be led to is to be the first step or the end of an edge. -/
theorem Leads.mem_edgeEnds (h : e.Leads first t) : t ∈ first :: e.edgeEnds := by
  rcases Relation.ReflTransGen.cases_tail h with rfl | ⟨s, -, ht⟩
  · exact List.mem_cons_self
  · exact List.mem_cons_of_mem first (Engine.mem_edgeEnds ht)

namespace Exploring

theorem length_le (h : Exploring e first seen toVisit) : seen.length ≤ e.edgeEnds.length + 1 :=
  (List.subperm_of_subset h.nodup fun t ht => (h.led t ht).mem_edgeEnds).length_le

/-- Visiting a step adds what follows it, as far as that is new. -/
theorem visit (h : Exploring e first seen (s :: toVisit)) :
    ∃ new, discover (e.targets s) (seen, toVisit) = (seen ++ new, toVisit ++ new) ∧
      Exploring e first (seen ++ new) (toVisit ++ new) := by
  obtain ⟨new, heq, hnodup, hnew, hall⟩ := discover_ends (e.targets s) seen toVisit
  have hs : s ∈ seen := h.pending s List.mem_cons_self
  refine ⟨new, heq, ?begins, ?nodup, ?led, ?pending, ?closed⟩
  case begins => rw [List.head?_append, h.begins]; rfl
  case nodup =>
    rw [List.nodup_append]
    exact ⟨h.nodup, hnodup, fun a ha b hb hab => (hnew b hb).2 (hab ▸ ha)⟩
  case led =>
    intro t ht
    rcases List.mem_append.mp ht with ht | ht
    · exact h.led t ht
    · exact (h.led s hs).tail (hnew t ht).1
  case pending =>
    intro t ht
    rcases List.mem_append.mp ht with ht | ht
    · exact List.mem_append_left new (h.pending t (List.mem_cons_of_mem s ht))
    · exact List.mem_append_right seen ht
  case closed =>
    intro r hr hrv t ht
    rw [List.mem_append, not_or] at hrv
    have hrs : r ∈ seen := (List.mem_append.mp hr).resolve_right hrv.2
    by_cases hrs' : r = s
    · exact hall t (hrs' ▸ ht)
    · have hrest : r ∉ s :: toVisit := by
        rw [List.mem_cons, not_or]
        exact ⟨hrs', hrv.1⟩
      exact List.mem_append_left new (h.closed r hrs hrest t ht)

/-- With enough visits the search leaves nothing to be visited. -/
theorem explored (h : Exploring e first seen toVisit) {fuel : Nat}
    (hf : e.edgeEnds.length + 2 + toVisit.length ≤ fuel + seen.length) :
    Exploring e first (explore e fuel seen toVisit) [] := by
  induction fuel generalizing seen toVisit with
  | zero =>
    have := h.length_le
    omega
  | succ fuel ih =>
    cases toVisit with
    | nil => exact h
    | cons s toVisit =>
      obtain ⟨new, heq, hnext⟩ := h.visit
      rw [explore, heq]
      apply ih hnext
      simp only [List.length_cons, List.length_append] at hf ⊢
      omega

end Exploring

/-- The search for what can be reached ends with nothing left to visit. -/
theorem reachable_explored (e : Engine σ) (first : StepId) :
    Exploring e first (e.reachable first) [] := by
  have hstart : Exploring e first [first] [first] :=
    { begins := rfl
      nodup := List.nodup_singleton first
      led := fun t ht => List.mem_singleton.mp ht ▸ .refl
      pending := fun _ => id
      closed := fun _ hs hns => absurd hs hns }
  exact hstart.explored (Nat.le_refl _)

/-- Listed is what the first step leads to. -/
theorem mem_reachable_iff : t ∈ e.reachable first ↔ e.Leads first t := by
  have h := reachable_explored e first
  refine ⟨h.led t, fun ht => ht.mem (fun s hs => h.closed s hs List.not_mem_nil) ?_⟩
  exact List.mem_of_head? h.begins

end ApprovalFlow.Engine
