import ApprovalFlow.Proofs.Records
import Mathlib.Data.Nat.Find

/-!
# The order in which steps are reached

The search along successors lists the steps nearest first. Steps at the same distance come in the order of
the earliest listed step that they follow, and under one such step in the order in which its outcomes were
registered (`breadthFirst_reachable`). The search keeps the visited steps in front of those still to be
visited (`Searching`): a step is listed when the first listed step that it follows is visited, so whatever
is listed sooner follows a step that is listed as soon, and by induction on the distance is as near.
-/

namespace ApprovalFlow

/-- Under distinct keys each entry is found by its own outcome. -/
theorem Successor.find?_of_mem {l : List Successor} (hk : (l.map (·.outcome.key)).Nodup) {x : Successor}
    (hx : x ∈ l) : find? x.outcome l = some x := by
  induction l with
  | nil => cases hx
  | cons y l ih =>
    obtain ⟨hy, hl⟩ := List.nodup_cons.mp hk
    rcases List.mem_cons.mp hx with rfl | hx
    · rw [find?, if_pos (Outcome.same_iff.mpr rfl)]
    · have hne : ¬y.outcome.same x.outcome = true := by
        intro h
        have hkey : y.outcome.key = x.outcome.key := Outcome.same_iff.mp h
        exact hy (List.mem_map.mpr ⟨x, hx, hkey.symm⟩)
      rw [find?, if_neg hne]
      exact ih hl hx

namespace Engine

variable {σ : Type}

/-! ## Paths and distances -/

def followers (e : Engine σ) (s : StepId) : List StepId := (e.step s).available.filterMap (e.step s).next?

inductive Path (e : Engine σ) (s : StepId) : Nat → StepId → Prop
  | here : Path e s 0 s
  | further {n : Nat} {t u : StepId} (h : Path e s n t) (hu : u ∈ e.followers t) : Path e s (n + 1) u

structure Distance (e : Engine σ) (s : StepId) (n : Nat) (t : StepId) : Prop where
  path : e.Path s n t
  least : ∀ m, e.Path s m t → n ≤ m

structure Earliest (e : Engine σ) (steps : List StepId) (p t : StepId) : Prop where
  listed : p ∈ steps
  followed : t ∈ e.followers p
  earliest : ∀ q ∈ steps, t ∈ e.followers q → steps.idxOf p ≤ steps.idxOf q

/-- The step `s` follows an earlier step than `t` does, or the same one under an outcome that was registered
earlier. -/
def Ahead (e : Engine σ) (steps : List StepId) (s t : StepId) : Prop :=
  ∃ p q, e.Earliest steps p s ∧ e.Earliest steps q t ∧ (steps.idxOf p < steps.idxOf q ∨
    p = q ∧ (e.followers p).idxOf s < (e.followers p).idxOf t)

/-- The list is what a breadth-first search from the step `first` finds. -/
structure BreadthFirst (e : Engine σ) (first : StepId) (steps : List StepId) : Prop where
  head : steps.head? = some first
  mem_iff : ∀ t, t ∈ steps ↔ ∃ n, e.Path first n t
  nodup : steps.Nodup
  order : steps.Pairwise fun s t => ∃ m n, e.Distance first m s ∧ e.Distance first n t ∧
    (m < n ∨ m = n ∧ e.Ahead steps s t)

/-- The search ends with a list: as long as there are steps to visit, the first of them is visited, and what
follows it is listed and to be visited unless it is listed already. -/
inductive Finds (e : Engine σ) : List StepId → List StepId → List StepId → Prop
  | done (seen : List StepId) : Finds e seen [] seen
  | visit {seen toVisit found : List StepId} {s : StepId}
      (h : Finds e (discover (e.followers s) (seen, toVisit)).1
        (discover (e.followers s) (seen, toVisit)).2 found) : Finds e seen (s :: toVisit) found

variable {e : Engine σ} {first s t p q : StepId} {steps visited toVisit : List StepId} {i j n : Nat}

theorem targets_eq_followers (hk : e.Keyed) (s : StepId) : e.targets s = e.followers s := by
  unfold targets followers Step.available
  rw [List.filterMap_map]
  refine List.filterMap_congr fun x hx => ?_
  show x.target = (Successor.find? x.outcome (e.step s).successors).bind (·.target)
  rw [Successor.find?_of_mem (Step.keyed_iff.mp (hk s)) hx]
  rfl

/-- To be led to is to be reached by a path. -/
theorem leads_iff (hk : e.Keyed) : e.Leads s t ↔ ∃ n, e.Path s n t := by
  constructor
  · intro h
    induction h with
    | refl => exact ⟨0, .here⟩
    | tail _ ht ih =>
      obtain ⟨n, hn⟩ := ih
      exact ⟨n + 1, hn.further (targets_eq_followers hk _ ▸ ht)⟩
  · rintro ⟨n, h⟩
    induction h with
    | here => exact .refl
    | further _ hu ih => exact ih.tail ((targets_eq_followers hk _).symm ▸ hu)

/-- What can be reached by a path has a distance. -/
theorem exists_distance (h : ∃ n, e.Path s n t) : ∃ n, e.Distance s n t := by
  classical
  exact ⟨Nat.find h, Nat.find_spec h, fun m hm => Nat.find_min' h hm⟩

/-! ## The search -/

/-- The step was listed when the visited step in place `i` was visited, the first one that it follows. -/
structure Discovered (e : Engine σ) (visited : List StepId) (i : Nat) (p t : StepId) : Prop where
  place : visited[i]? = some p
  followed : t ∈ e.followers p
  first : ∀ j q, visited[j]? = some q → t ∈ e.followers q → i ≤ j

def Sooner (e : Engine σ) (visited : List StepId) (s t : StepId) : Prop :=
  ∃ i p j q, e.Discovered visited i p s ∧ e.Discovered visited j q t ∧
    (i < j ∨ i = j ∧ (e.followers p).idxOf s < (e.followers p).idxOf t)

/-- A search that has visited the steps in front, and has listed all the others in the order in which it
came upon them. -/
structure Searching (e : Engine σ) (first : StepId) (visited toVisit : List StepId) : Prop
    extends Exploring e first (visited ++ toVisit) toVisit where
  discovered : ∀ t ∈ (visited ++ toVisit).tail, ∃ i p, e.Discovered visited i p t
  sorted : (visited ++ toVisit).tail.Pairwise (e.Sooner visited)

/-- What is discovered comes in the order in which it has been found. -/
theorem discover_sorted {found seen toVisit new : List StepId}
    (h : discover found (seen, toVisit) = (seen ++ new, toVisit ++ new)) :
    new.Pairwise fun s t => found.idxOf s < found.idxOf t := by
  induction found generalizing seen toVisit new with
  | nil =>
    have hnil : seen ++ [] = seen ++ new := by simpa [discover] using congrArg Prod.fst h
    obtain rfl := List.append_cancel_left hnil
    exact .nil
  | cons t found ih =>
    -- Behind the step that was found first all the others keep their order.
    have hlater : ∀ {new : List StepId}, t ∉ new →
        new.Pairwise (fun s u => found.idxOf s < found.idxOf u) →
          new.Pairwise fun s u => (t :: found).idxOf s < (t :: found).idxOf u := by
      intro new ht hnew
      refine hnew.imp_of_mem fun {a b} ha hb hab => ?_
      have hta : t ≠ a := fun h => ht (h ▸ ha)
      have htb : t ≠ b := fun h => ht (h ▸ hb)
      rw [List.idxOf_cons_ne _ hta, List.idxOf_cons_ne _ htb]
      exact Nat.succ_lt_succ hab
    rw [discover] at h
    by_cases ht : t ∈ seen
    · rw [if_pos (by simpa using ht)] at h
      obtain ⟨new', heq, -, hnew, -⟩ := discover_ends found seen toVisit
      obtain rfl := List.append_cancel_left (congrArg Prod.fst (heq.symm.trans h))
      exact hlater (fun htn => (hnew t htn).2 ht) (ih h)
    · rw [if_neg (by simpa using ht)] at h
      obtain ⟨new', heq, -, hnew, -⟩ := discover_ends found (seen ++ [t]) (toVisit ++ [t])
      have htn : t ∉ new' := fun htn => (hnew t htn).2 (by simp)
      have hcons : seen ++ t :: new' = seen ++ new := by
        simpa using congrArg Prod.fst (heq.symm.trans h)
      obtain rfl := List.append_cancel_left hcons
      refine List.pairwise_cons.mpr ⟨fun u hu => ?_, hlater htn (ih heq)⟩
      have htu : t ≠ u := fun h => htn (h ▸ hu)
      rw [List.idxOf_cons_self, List.idxOf_cons_ne _ htu]
      exact Nat.succ_pos _

/-- What has been discovered stays so when more is visited. -/
theorem Discovered.append (h : e.Discovered visited i p t) (more : List StepId) :
    e.Discovered (visited ++ more) i p t where
  place := by
    obtain ⟨hi, -⟩ := List.getElem?_eq_some_iff.mp h.place
    rw [List.getElem?_append_left hi]
    exact h.place
  followed := h.followed
  first j q hj hq := by
    obtain ⟨hi, -⟩ := List.getElem?_eq_some_iff.mp h.place
    by_cases hlt : j < visited.length
    · rw [List.getElem?_append_left hlt] at hj
      exact h.first j q hj hq
    · omega

theorem Sooner.append (h : e.Sooner visited s t) (more : List StepId) : e.Sooner (visited ++ more) s t := by
  obtain ⟨i, p, j, q, hs, ht, hlt⟩ := h
  exact ⟨i, p, j, q, hs.append more, ht.append more, hlt⟩

namespace Searching

/-- To visit a step lists what follows it and is new behind all the rest. -/
theorem visit (hk : e.Keyed) (h : Searching e first visited (s :: toVisit)) :
    ∃ new, discover (e.followers s) (visited ++ s :: toVisit, toVisit) =
      (visited ++ s :: toVisit ++ new, toVisit ++ new) ∧
        Searching e first (visited ++ [s]) (toVisit ++ new) := by
  obtain ⟨new, heq, hnext⟩ := h.toExploring.visit
  obtain ⟨new', heq', -, hnew, -⟩ := discover_ends (e.targets s) (visited ++ s :: toVisit) toVisit
  obtain rfl : new' = new := List.append_cancel_left (congrArg Prod.snd (heq'.symm.trans heq))
  rw [targets_eq_followers hk] at heq hnew
  have hlist : visited ++ s :: toVisit ++ new' = visited ++ [s] ++ (toVisit ++ new') := by simp
  have htail : (visited ++ s :: toVisit ++ new').tail = (visited ++ s :: toVisit).tail ++ new' := by
    rw [List.tail_append_of_ne_nil]
    simp
  -- No step that was visited before leads to a new one.
  have hdisc : ∀ t ∈ new', e.Discovered (visited ++ [s]) visited.length s t := by
    intro t ht
    refine ⟨List.getElem?_concat_length, (hnew t ht).1, fun j q hj hq => Nat.le_of_not_lt fun hlt => ?_⟩
    rw [List.getElem?_append_left hlt] at hj
    have hqv : q ∈ visited := List.mem_of_getElem? hj
    have hapart := List.disjoint_of_nodup_append h.nodup
    rw [← targets_eq_followers hk] at hq
    exact (hnew t ht).2 (h.closed q (List.mem_append_left _ hqv) (fun hqt => hapart hqv hqt) t hq)
  refine ⟨new', heq, ⟨hlist ▸ hnext, fun t ht => ?discovered, ?sorted⟩⟩
  case discovered =>
    rw [← hlist, htail] at ht
    rcases List.mem_append.mp ht with ht | ht
    · obtain ⟨i, p, hd⟩ := h.discovered t ht
      exact ⟨i, p, hd.append [s]⟩
    · exact ⟨_, s, hdisc t ht⟩
  case sorted =>
    rw [← hlist, htail, List.pairwise_append]
    refine ⟨h.sorted.imp fun hs => hs.append [s], (discover_sorted heq).imp_of_mem fun {a b} ha hb hab => ?_,
      fun a ha b hb => ?_⟩
    · exact ⟨_, s, _, s, hdisc a ha, hdisc b hb, .inr ⟨rfl, hab⟩⟩
    · obtain ⟨i, p, hd⟩ := h.discovered a ha
      obtain ⟨hi, -⟩ := List.getElem?_eq_some_iff.mp hd.place
      exact ⟨i, p, _, s, hd.append [s], hdisc b hb, .inl hi⟩

/-- With enough visits the search ends. -/
theorem explore (hk : e.Keyed) (h : Searching e first visited toVisit) {fuel : Nat}
    (hf : e.edgeEnds.length + 2 + toVisit.length ≤ fuel + (visited ++ toVisit).length) :
    Finds e (visited ++ toVisit) toVisit (explore e fuel (visited ++ toVisit) toVisit) ∧
      Searching e first (Engine.explore e fuel (visited ++ toVisit) toVisit) [] := by
  induction fuel generalizing visited toVisit with
  | zero =>
    have := h.length_le
    omega
  | succ fuel ih =>
    cases toVisit with
    | nil =>
      rw [Engine.explore, List.append_nil]
      exact ⟨.done _, by simpa using h⟩
    | cons s toVisit =>
      obtain ⟨new, heq, hnext⟩ := h.visit hk
      have hlist : visited ++ s :: toVisit ++ new = visited ++ [s] ++ (toVisit ++ new) := by simp
      rw [Engine.explore, targets_eq_followers hk, heq]
      dsimp only
      rw [hlist]
      obtain ⟨hfinds, hend⟩ := ih hnext (by
        simp only [List.length_append, List.length_cons, List.length_nil] at hf ⊢
        omega)
      refine ⟨.visit ?_, hend⟩
      rw [heq, hlist]
      exact hfinds

end Searching

/-! ## The order of the list -/

section Order

variable (h : Searching e first steps [])
include h

theorem Searching.head : steps[0]? = some first := by
  have hhead := h.begins
  rwa [List.append_nil, List.head?_eq_getElem?] at hhead

theorem Searching.mem_iff (hk : e.Keyed) : t ∈ steps ↔ ∃ n, e.Path first n t := by
  rw [← leads_iff hk]
  have hclosed := h.closed
  rw [List.append_nil] at hclosed
  constructor
  · exact fun ht => h.led t (List.mem_append_left _ ht)
  · exact fun ht => ht.mem (fun s hs => hclosed s hs List.not_mem_nil) (List.mem_of_getElem? h.head)

/-- Only the first place has the first step. -/
theorem Searching.eq_zero (hi : steps[i]? = some first) : i = 0 := by
  have hnodup : steps.Nodup := by simpa using h.nodup
  obtain ⟨hlt, -⟩ := List.getElem?_eq_some_iff.mp hi
  exact (List.getElem?_inj hlt hnodup).mp (hi.trans h.head.symm)

/-- Behind the first step, what is listed sooner was discovered sooner. -/
theorem Searching.sooner (hi : steps[i]? = some s) (hj : steps[j]? = some t) (hpos : 0 < i) (hlt : i < j) :
    e.Sooner steps s t := by
  have hsorted := h.sorted
  rw [List.append_nil, List.pairwise_iff_getElem] at hsorted
  obtain ⟨hi', rfl⟩ := List.getElem?_eq_some_iff.mp hi
  obtain ⟨hj', rfl⟩ := List.getElem?_eq_some_iff.mp hj
  have hs := hsorted (i - 1) (j - 1) (by rw [List.length_tail]; omega) (by rw [List.length_tail]; omega)
    (by omega)
  simp only [List.getElem_tail] at hs
  have hi'' : i - 1 + 1 = i := by omega
  have hj'' : j - 1 + 1 = j := by omega
  simpa only [hi'', hj''] using hs

/-- What is listed sooner than a step to which a path of `n` edges at most leads is led to by such a path,
too. -/
theorem Searching.near (hk : e.Keyed) (hi : steps[i]? = some s) (hj : steps[j]? = some t) (hle : i ≤ j)
    (ht : ∃ m ≤ n, e.Path first m t) : ∃ m ≤ n, e.Path first m s := by
  induction n generalizing i j s t with
  | zero =>
    obtain ⟨m, hm, hp⟩ := ht
    obtain rfl := Nat.le_zero.mp hm
    cases hp
    obtain rfl := Nat.le_zero.mp (h.eq_zero hj ▸ hle)
    obtain rfl := Option.some.inj (h.head.symm.trans hi)
    exact ⟨0, Nat.le_refl 0, .here⟩
  | succ n ih =>
    rcases Nat.eq_zero_or_pos i with rfl | hpos
    · obtain rfl := Option.some.inj (h.head.symm.trans hi)
      exact ⟨0, Nat.zero_le _, .here⟩
    rcases Nat.eq_or_lt_of_le hle with rfl | hlt
    · obtain rfl := Option.some.inj (hi.symm.trans hj)
      exact ht
    obtain ⟨m, hm, hp⟩ := ht
    cases hp with
    | here => exact absurd (h.eq_zero hj) (by omega)
    | @further m u _ hu hut =>
      -- The step `s` follows one that was visited no later than the one before `t` on the path.
      obtain ⟨a, p, b, q, hs, ht, hab⟩ := h.sooner hi hj hpos hlt
      obtain ⟨c, hc⟩ := List.getElem?_of_mem ((h.mem_iff hk).mpr ⟨m, hu⟩)
      have hbc : b ≤ c := ht.first c u hc hut
      obtain ⟨m', hm', hp'⟩ := ih hs.place hc (by omega) ⟨m, by omega, hu⟩
      exact ⟨m' + 1, by omega, hp'.further hs.followed⟩

/-- The step at whose visit another was discovered is the earliest that it follows. -/
theorem Searching.earliest (hd : e.Discovered steps i p t) : e.Earliest steps p t ∧ steps.idxOf p = i := by
  have hnodup : steps.Nodup := by simpa using h.nodup
  have hplace : ∀ {k q}, steps[k]? = some q → steps.idxOf q = k := by
    intro k q hq
    obtain ⟨hlt, rfl⟩ := List.getElem?_eq_some_iff.mp hq
    exact hnodup.idxOf_getElem k hlt
  refine ⟨⟨List.mem_of_getElem? hd.place, hd.followed, fun q hq hqt => ?_⟩, hplace hd.place⟩
  obtain ⟨k, hk⟩ := List.getElem?_of_mem hq
  rw [hplace hd.place, hplace hk]
  exact hd.first k q hk hqt

/-- What was discovered sooner is ahead. -/
theorem Searching.ahead (hs : e.Sooner steps s t) : e.Ahead steps s t := by
  obtain ⟨i, p, j, q, hp, hq, hlt⟩ := hs
  obtain ⟨hp', rfl⟩ := h.earliest hp
  obtain ⟨hq', rfl⟩ := h.earliest hq
  refine ⟨p, q, hp', hq', hlt.imp_right fun ⟨hpq, hidx⟩ => ⟨?_, hidx⟩⟩
  exact (List.idxOf_inj hp'.listed).mp hpq

/-- What an ended search has listed stands in the order of the distances. -/
theorem Searching.breadthFirst (hk : e.Keyed) : e.BreadthFirst first steps where
  head := by
    rw [List.head?_eq_getElem?]
    exact h.head
  mem_iff _ := h.mem_iff hk
  nodup := by simpa using h.nodup
  order := by
    rw [List.pairwise_iff_getElem]
    intro i j hi hj hlt
    obtain ⟨m, hm⟩ := exists_distance ((h.mem_iff hk).mp (List.getElem_mem hi))
    obtain ⟨n, hn⟩ := exists_distance ((h.mem_iff hk).mp (List.getElem_mem hj))
    have hi' : steps[i]? = some steps[i] := List.getElem?_eq_getElem hi
    have hj' : steps[j]? = some steps[j] := List.getElem?_eq_getElem hj
    obtain ⟨m', hm', hp⟩ := h.near hk hi' hj' (Nat.le_of_lt hlt) ⟨n, Nat.le_refl n, hn.path⟩
    have hle : m ≤ n := Nat.le_trans (hm.least m' hp) hm'
    refine ⟨m, n, hm, hn, (Nat.lt_or_eq_of_le hle).imp_right fun heq => ⟨heq, ?_⟩⟩
    rcases Nat.eq_zero_or_pos i with rfl | hpos
    · -- The first step is at no distance, and no other step is.
      have hzero : m = 0 := by
        have hfirst := Option.some.inj (hi'.symm.trans h.head)
        exact Nat.le_zero.mp (hm.least 0 (hfirst ▸ .here))
      have hpath := hn.path
      rw [← heq, hzero] at hpath
      generalize ht : steps[j] = t at hpath
      cases hpath
      exact absurd (h.eq_zero (hj'.trans (congrArg some ht))) (by omega)
    · exact h.ahead (h.sooner hi' hj' hpos hlt)

end Order

/-- A search ends with one list. -/
theorem Finds.eq {seen found found' : List StepId} (h : e.Finds seen toVisit found)
    (h' : e.Finds seen toVisit found') : found = found' := by
  induction h with
  | done => cases h'; rfl
  | visit _ ih =>
    cases h' with
    | visit h' => exact ih h'

/-- The search from a step ends, with the list of what can be reached: the steps to which paths lead from the
first one, in breadth-first order. -/
theorem breadthFirst_reachable (hk : e.Keyed) (first : StepId) :
    (∀ found, e.Finds [first] [first] found ↔ found = e.reachable first) ∧
      e.BreadthFirst first (e.reachable first) := by
  have hstart : Searching e first [] [first] :=
    { begins := rfl
      nodup := List.nodup_singleton first
      led := fun t ht => List.mem_singleton.mp ht ▸ .refl
      pending := fun _ => id
      closed := fun _ hs hns => absurd hs hns
      discovered := fun _ ht => absurd ht List.not_mem_nil
      sorted := .nil }
  obtain ⟨hfinds, hend⟩ := hstart.explore hk (Nat.le_refl _)
  exact ⟨fun found => ⟨fun h => h.eq hfinds, fun h => h ▸ hfinds⟩, hend.breadthFirst hk⟩

def application : Engine Unit where
  steps := #[Step.ofDecision "Decision" "apply" (some ⟨"anna"⟩) 1 [.approve, .hold, .deny] false
      |>.withSuccessor .deny (some ⟨1⟩) |>.withSuccessor .approve (some ⟨2⟩),
    (Step.task "Task" "decline" none).withSuccessor .complete (some ⟨3⟩),
    (Step.task "Task" "discuss" none).withSuccessor .complete (some ⟨4⟩),
    (Step.task "Task" "answer" none).withSuccessor .complete (some ⟨0⟩),
    (Step.task "Task" "agree" none).withSuccessor .complete (some ⟨3⟩)]
  clock := .counter 1 1
  host := ()

/-- The discussion comes before the decline, as approval was registered before denial, and so the agreement,
which follows the discussion, before the answer, although that has the lower place. -/
theorem application_breadthFirst :
    application.Keyed ∧
      application.Finds [⟨0⟩] [⟨0⟩] [⟨0⟩, ⟨2⟩, ⟨1⟩, ⟨4⟩, ⟨3⟩] ∧
        application.BreadthFirst ⟨0⟩ [⟨0⟩, ⟨2⟩, ⟨1⟩, ⟨4⟩, ⟨3⟩] := by
  have hk : application.Keyed := keyed_of_steps (by simp only [Step.keyed_iff]; decide +kernel)
  have hlist : application.reachable ⟨0⟩ = [⟨0⟩, ⟨2⟩, ⟨1⟩, ⟨4⟩, ⟨3⟩] := by decide +kernel
  obtain ⟨hfinds, hbreadth⟩ := breadthFirst_reachable hk ⟨0⟩
  exact ⟨hk, (hfinds _).mpr hlist.symm, hlist ▸ hbreadth⟩

end Engine

end ApprovalFlow
