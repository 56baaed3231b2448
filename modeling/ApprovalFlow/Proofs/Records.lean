import ApprovalFlow.Proofs.Reachable
import ApprovalFlow.Record
import Mathlib.Data.List.Forall2
import Mathlib.Data.Set.Function

/-!
# What a record tells

A record lists the steps that can be reached, and refers to them by their places in that list. So it tells
the whole graph: who reads along its entries comes by the steps that the workflow would come by, and
workflows with one record have graphs that are the same but for where the steps are kept
(`record_determines_graph`). A record can be taken exactly if all that the workflow refers to can be
reached (`exists_record_iff`).
-/

namespace ApprovalFlow

open Engine

/-! ## Outcomes without repetition -/

def Step.Keyed (st : Step) : Prop := (st.available.map (·.key)).Nodup

theorem Successor.keys_register (o : Outcome) (target : Option StepId) (l : List Successor) :
    (register o target l).map (·.outcome.key) =
      if o.key ∈ l.map (·.outcome.key) then l.map (·.outcome.key)
      else l.map (·.outcome.key) ++ [o.key] := by
  induction l with
  | nil => simp [register]
  | cons x l ih =>
    rw [register]
    by_cases hx : x.outcome.same o
    · have hkey : x.outcome.key = o.key := Outcome.same_iff.mp hx
      simp [hx, hkey]
    · have hkey : o.key ≠ x.outcome.key := fun h => hx (Outcome.same_iff.mpr h.symm)
      simp only [hx, Bool.false_eq_true, if_false, List.map_cons, List.mem_cons, hkey, false_or, ih]
      split <;> rfl

namespace Step

variable {st : Step}

theorem keyed_iff : st.Keyed ↔ (st.successors.map (·.outcome.key)).Nodup := by
  unfold Keyed available
  rw [List.map_map]
  rfl

/-- To register what follows an outcome repeats no key. -/
theorem Keyed.withSuccessor (h : st.Keyed) (o : Outcome) (target : Option StepId) :
    (st.withSuccessor o target).Keyed := by
  rw [keyed_iff] at h ⊢
  show ((Successor.register o target st.successors).map (·.outcome.key)).Nodup
  rw [Successor.keys_register]
  split
  · exact h
  · rename_i ho
    rw [List.nodup_append]
    refine ⟨h, List.nodup_singleton _, fun a ha b hb hab => ho ?_⟩
    rw [List.mem_singleton] at hb
    exact hb ▸ hab ▸ ha

theorem Keyed.withOutcomes (h : st.Keyed) (outcomes : List Outcome) : (st.withOutcomes outcomes).Keyed := by
  unfold Step.withOutcomes
  induction outcomes generalizing st with
  | nil => exact h
  | cons o outcomes ih => exact ih (h.withSuccessor o none)

theorem keyed_of_nil (h : st.successors = []) : st.Keyed := by
  rw [keyed_iff, h]
  exact List.nodup_nil

theorem keyed_task (kind key : String) (actor : Option Actor) : (task kind key actor).Keyed :=
  (keyed_of_nil rfl).withOutcomes _

theorem keyed_ofDecision (kind key : String) (actor : Option Actor) (number : Nat)
    (outcomes : List Outcome) (reassignable : Bool) :
    (ofDecision kind key actor number outcomes reassignable).Keyed :=
  (keyed_of_nil rfl).withOutcomes _

theorem keyed_notification (kind key : String) (actor : Option Actor) (number : Nat) :
    (notification kind key actor number).Keyed := keyed_ofDecision kind key actor number _ false

end Step

/-! ## Places -/

def Refers (steps : List StepId) (i : Option Nat) (s : Option StepId) : Prop :=
  i.map (steps[·]?) = s.map some

structure Engine.Lists {σ : Type} (e : Engine σ) (first : StepId) (steps : List StepId) : Prop where
  head : steps[0]? = some first
  nodup : steps.Nodup
  mem_iff : ∀ s, s ∈ steps ↔ e.Leads first s

structure StepRecord.Describes (steps : List StepId) (r : StepRecord) (st : Step) : Prop where
  kind : r.kind = st.kind
  key : r.key = st.key
  actor : r.actor = st.actor.map (·.name)
  state : r.state = st.state
  outcome : r.outcome = st.outcome.key
  startTime : r.startTime = st.startTime
  endTime : r.endTime = st.endTime
  errors : r.errors = st.errors
  number : r.number = st.decision.map (·.number)
  facts : r.facts = st.facts
  available : r.available = st.available.map (·.key)
  keys : Entries.keys r.next = r.available
  offers : ∀ o, Entries.contains r.next o.key = st.offers o
  next : ∀ o i, Entries.get? o.key r.next = some i → Refers steps i (st.next? o)

structure WorkflowRecord.Depicts {σ : Type} (r : WorkflowRecord) (steps : List StepId) (e : Engine σ)
    (w : WorkflowId) : Prop where
  listed : List.Forall₂ (fun sr s => StepRecord.Describes steps sr (e.step s)) r.steps steps
  first : r.first = some 0
  current : Refers steps r.current (e.workflow w).current?
  previous : Refers steps r.previous (e.workflow w).previous
  history : List.Forall₂ (fun i s => steps[i]? = some s) r.history (e.workflow w).history

/-- The places that one comes by from a place on, along outcomes with the given keys. -/
def WorkflowRecord.visits (r : WorkflowRecord) : List String → Nat → List Nat
  | [], i => [i]
  | k :: ks, i =>
    match r.steps[i]?.bind fun sr => (Entries.get? k sr.next).join with
    | some j => i :: r.visits ks j
    | none => [i]

def Engine.visits {σ : Type} (e : Engine σ) : List Outcome → StepId → List StepId
  | [], s => [s]
  | o :: os, s =>
    match (e.step s).next? o with
    | some t => s :: e.visits os t
    | none => [s]

/-- The steps look the same in a record, if `f` takes what follows the one to what follows the other. -/
structure Step.Mirrors (f : StepId → StepId) (a b : Step) : Prop where
  kind : a.kind = b.kind
  key : a.key = b.key
  actor : a.actor.map (·.name) = b.actor.map (·.name)
  state : a.state = b.state
  outcome : a.outcome.key = b.outcome.key
  startTime : a.startTime = b.startTime
  endTime : a.endTime = b.endTime
  errors : a.errors = b.errors
  number : a.decision.map (·.number) = b.decision.map (·.number)
  facts : a.facts = b.facts
  available : a.available.map (·.key) = b.available.map (·.key)
  next : ∀ o, (a.next? o).map f = b.next? o

/-- The graphs of two workflows are isomorphic by `f`, and what the workflows refer to corresponds. -/
structure Engine.Mirrors {σ τ : Type} (f : StepId → StepId) (e : Engine σ) (w : WorkflowId) (e' : Engine τ)
    (w' : WorkflowId) : Prop where
  graph : Set.BijOn f {s | e.Leads (e.workflow w).first s} {s | e'.Leads (e'.workflow w').first s}
  steps : ∀ s, e.Leads (e.workflow w).first s → Step.Mirrors f (e.step s) (e'.step (f s))
  first : f (e.workflow w).first = (e'.workflow w').first
  current : (e.workflow w).current?.map f = (e'.workflow w').current?
  previous : (e.workflow w).previous.map f = (e'.workflow w').previous
  history : (e.workflow w).history.map f = (e'.workflow w').history

variable {σ τ α β : Type} {e : Engine σ} {e' : Engine τ} {w w' : WorkflowId} {s : StepId}
  {steps : List StepId}

namespace Engine

def Keyed (e : Engine σ) : Prop := ∀ s, (e.step s).Keyed

theorem keyed_of_steps (h : ∀ st ∈ e.steps.toList, st.Keyed) : e.Keyed := by
  intro s
  by_cases hs : e.HasStep s
  · refine h (e.step s) ?_
    unfold Engine.step
    rw [Array.getD_eq_getD_getElem?, Array.getElem?_eq_getElem hs]
    exact Array.getElem_mem_toList hs
  · rw [step_of_not_hasStep hs]
    exact List.nodup_nil

theorem lists_reachable (e : Engine σ) (first : StepId) : e.Lists first (e.reachable first) where
  head := by
    have h := (reachable_explored e first).begins
    rwa [List.head?_eq_getElem?] at h
  nodup := (reachable_explored e first).nodup
  mem_iff _ := mem_reachable_iff

theorem placeIn_refers {i : Nat} (h : placeIn steps s = .ok i) : steps[i]? = some s := by
  unfold placeIn at h
  split at h
  · rename_i j hj
    cases h
    obtain ⟨hlt, heq, -⟩ := List.idxOf?_eq_some_iff.mp hj
    rw [List.getElem?_eq_getElem hlt, heq]
  · cases h

theorem exists_placeIn (h : s ∈ steps) : ∃ i, placeIn steps s = .ok i := by
  obtain ⟨i, hi⟩ := Option.isSome_iff_exists.mp (List.isSome_idxOf?.mpr h)
  exact ⟨i, by rw [placeIn, hi]⟩

/-- Results one after another are there if each of them is. -/
theorem exists_of_bind_ok {r : Except Failure α} {f : α → Except Failure β} {b : β}
    (h : r >>= f = .ok b) : ∃ a, r = .ok a ∧ f a = .ok b := by
  cases r with
  | error x => cases h
  | ok a => exact ⟨a, rfl, h⟩

theorem optionalPlaceIn_refers {i : Option Nat} {s : Option StepId}
    (h : optionalPlaceIn steps s = .ok i) : Refers steps i s := by
  cases s with
  | none =>
    cases h
    rfl
  | some s =>
    change some <$> placeIn steps s = .ok i at h
    rw [map_eq_pure_bind] at h
    obtain ⟨j, hj, hi⟩ := exists_of_bind_ok h
    cases hi
    exact congrArg some (placeIn_refers hj)

theorem exists_optionalPlaceIn {s : Option StepId} (h : ∀ t ∈ s, t ∈ steps) :
    ∃ i, optionalPlaceIn steps s = .ok i := by
  cases s with
  | none => exact ⟨none, rfl⟩
  | some s =>
    obtain ⟨i, hi⟩ := exists_placeIn (h s rfl)
    exact ⟨some i, by rw [optionalPlaceIn, hi]; rfl⟩

/-- A list of results comes from each of the elements in turn. -/
theorem forall₂_of_mapM {f : α → Except Failure β} {l : List α} {l' : List β} (h : l.mapM f = .ok l') :
    List.Forall₂ (fun b a => f a = .ok b) l' l := by
  induction l generalizing l' with
  | nil =>
    cases h
    exact .nil
  | cons a l ih =>
    rw [List.mapM_cons] at h
    obtain ⟨b, hb, h⟩ := exists_of_bind_ok h
    obtain ⟨bs, hbs, h⟩ := exists_of_bind_ok h
    cases h
    exact .cons hb (ih hbs)

theorem exists_mapM {f : α → Except Failure β} {l : List α} (h : ∀ a ∈ l, ∃ b, f a = .ok b) :
    ∃ l', l.mapM f = .ok l' := by
  induction l with
  | nil => exact ⟨[], rfl⟩
  | cons a l ih =>
    obtain ⟨b, hb⟩ := h a List.mem_cons_self
    obtain ⟨bs, hbs⟩ := ih fun x hx => h x (List.mem_cons_of_mem a hx)
    exact ⟨b :: bs, by rw [List.mapM_cons, hb, hbs]; rfl⟩

/-! ## Records of steps -/

theorem recordNext_ends {l : List Successor} {next : Entries String (Option Nat)}
    (h : recordNext steps l = .ok next) :
    Entries.keys next = l.map (·.outcome.key) ∧
      ∀ o, (Entries.get? o.key next).map (·.map (steps[·]?)) =
        (Successor.find? o l).map (·.target.map some) := by
  -- Entry by entry: under the same key stands the place of what is registered.
  have hl := forall₂_of_mapM h
  clear h
  induction hl with
  | nil => exact ⟨rfl, fun _ => rfl⟩
  | @cons p x next l hp _ ih =>
    obtain ⟨i, hi, hp⟩ := exists_of_bind_ok hp
    cases hp
    refine ⟨congrArg (x.outcome.key :: ·) ih.1, fun o => ?_⟩
    by_cases ho : x.outcome.same o
    · have hkey : x.outcome.key = o.key := Outcome.same_iff.mp ho
      rw [Entries.get?, if_pos hkey, Successor.find?, if_pos ho]
      exact congrArg some (optionalPlaceIn_refers hi)
    · have hkey : x.outcome.key ≠ o.key := fun h => ho (Outcome.same_iff.mpr h)
      rw [Entries.get?, if_neg hkey, Successor.find?, if_neg ho]
      exact ih.2 o

theorem recordStep_describes {r : StepRecord} (h : recordStep e steps s = .ok r) :
    StepRecord.Describes steps r (e.step s) := by
  obtain ⟨next, hn, h⟩ := exists_of_bind_ok h
  obtain ⟨hkeys, hget⟩ := recordNext_ends hn
  cases h
  refine ⟨rfl, rfl, rfl, rfl, rfl, rfl, rfl, rfl, rfl, rfl, rfl, ?keys, fun o => ?offers,
    fun o i hi => ?next⟩
  case keys => rw [hkeys, Step.available, List.map_map]; rfl
  case offers =>
    have := congrArg Option.isSome (hget o)
    rwa [Option.isSome_map, Option.isSome_map] at this
  case next =>
    have ho := hget o
    rw [hi, Option.map_some] at ho
    obtain ⟨x, hx, hxi⟩ := Option.map_eq_some_iff.mp ho.symm
    unfold Refers Step.next?
    rw [← hxi, hx]
    rfl

theorem exists_recordStep (h : ∀ t ∈ e.targets s, t ∈ steps) : ∃ r, recordStep e steps s = .ok r := by
  have hnext : ∃ next, recordNext steps (e.step s).successors = .ok next := by
    refine exists_mapM fun x hx => ?_
    have htarget : ∀ t ∈ x.target, t ∈ steps := fun t ht =>
      h t (List.mem_filterMap.mpr ⟨x, hx, ht⟩)
    obtain ⟨i, hi⟩ := exists_optionalPlaceIn htarget
    exact ⟨(x.outcome.key, i), by rw [hi]; rfl⟩
  obtain ⟨next, hn⟩ := hnext
  unfold recordStep
  dsimp only
  rw [hn]
  exact ⟨_, rfl⟩

end Engine

/-! ## Reading a record -/

theorem Refers.mem {i : Option Nat} {s : Option StepId} (h : Refers steps i s) : ∀ t ∈ s, t ∈ steps := by
  rintro t rfl
  cases i with
  | none => cases h
  | some i => exact List.mem_of_getElem? (Option.some.inj h)

theorem StepRecord.Describes.place {r : StepRecord} {st : Step} (h : r.Describes steps st) (o : Outcome) :
    Refers steps (Entries.get? o.key r.next).join (st.next? o) := by
  cases hi : Entries.get? o.key r.next with
  | some i => exact h.next o i hi
  | none =>
    have ho := h.offers o
    rw [Entries.contains, hi, Option.isSome_none] at ho
    have hn : st.next? o = none := by
      unfold Step.next?
      rw [Option.not_isSome_iff_eq_none.mp fun hs => Bool.false_ne_true (ho.trans hs)]
      rfl
    rw [hn]
    rfl

/-! ## From list to list -/

def across (steps steps' : List StepId) (s : StepId) : StepId := (steps'[steps.idxOf s]?).getD default

section Across

variable {steps' : List StepId} (hn : steps.Nodup) (hlength : steps.length = steps'.length)
include hn hlength

theorem getElem?_across {i : Nat} (hs : steps[i]? = some s) : steps'[i]? = some (across steps steps' s) := by
  obtain ⟨hi, rfl⟩ := List.getElem?_eq_some_iff.mp hs
  unfold across
  rw [hn.idxOf_getElem, List.getElem?_eq_getElem (hlength ▸ hi : i < steps'.length), Option.getD_some]

theorem Refers.map_across {i : Option Nat} {s t : Option StepId} (hs : Refers steps i s)
    (ht : Refers steps' i t) : s.map (across steps steps') = t := by
  cases i <;> cases s <;> cases t
  case none.none.none => rfl
  case some.some.some =>
    exact (getElem?_across hn hlength (Option.some.inj hs)).symm.trans (Option.some.inj ht)
  all_goals first | (cases hs; done) | cases ht

/-- Lists of one length without repetition are taken one to one onto each other. -/
theorem bijOn_across (hn' : steps'.Nodup) :
    Set.BijOn (across steps steps') {s | s ∈ steps} {s | s ∈ steps'} := by
  refine ⟨fun s hs => ?_, fun s hs t ht hst => ?_, fun t ht => ?_⟩
  · obtain ⟨i, hi⟩ := List.mem_iff_getElem?.mp hs
    exact List.mem_of_getElem? (getElem?_across hn hlength hi)
  · obtain ⟨i, hi⟩ := List.mem_iff_getElem?.mp hs
    obtain ⟨j, hj⟩ := List.mem_iff_getElem?.mp ht
    -- Without repetition the places are the same, and so are the steps at them.
    have hij : steps'[i]? = steps'[j]? := by
      rw [getElem?_across hn hlength hi, getElem?_across hn hlength hj, hst]
    have hlt : i < steps'.length := hlength ▸ (List.getElem?_eq_some_iff.mp hi).1
    rw [(List.getElem?_inj hlt hn').mp hij, hj] at hi
    exact (Option.some.inj hi).symm
  · obtain ⟨i, hi⟩ := List.mem_iff_getElem?.mp ht
    have hlt : i < steps.length := hlength ▸ (List.getElem?_eq_some_iff.mp hi).1
    refine ⟨steps[i], List.getElem_mem hlt, ?_⟩
    exact Option.some.inj ((getElem?_across hn hlength (List.getElem?_eq_getElem hlt)).symm.trans hi)

/-- Steps with one record mirror each other. -/
theorem StepRecord.Describes.mirrors {r : StepRecord} {a b : Step} (h : r.Describes steps a)
    (h' : r.Describes steps' b) : Step.Mirrors (across steps steps') a b where
  kind := h.kind.symm.trans h'.kind
  key := h.key.symm.trans h'.key
  actor := h.actor.symm.trans h'.actor
  state := h.state.symm.trans h'.state
  outcome := h.outcome.symm.trans h'.outcome
  startTime := h.startTime.symm.trans h'.startTime
  endTime := h.endTime.symm.trans h'.endTime
  errors := h.errors.symm.trans h'.errors
  number := h.number.symm.trans h'.number
  facts := h.facts.symm.trans h'.facts
  available := h.available.symm.trans h'.available
  next o := (h.place o).map_across hn hlength (h'.place o)

end Across

namespace WorkflowRecord.Depicts

variable {r : WorkflowRecord} (h : r.Depicts steps e w)
include h

theorem mem_of_mem_history (hs : s ∈ (e.workflow w).history) : s ∈ steps := by
  obtain ⟨n, hn, rfl⟩ := List.mem_iff_getElem.mp hs
  have hlt : n < r.history.length := h.history.length_eq ▸ hn
  exact List.mem_of_getElem? (h.history.get hlt hn)

/-- At the place of a step stands its record. -/
theorem entry {i : Nat} (hs : steps[i]? = some s) :
    ∃ sr, r.steps[i]? = some sr ∧ StepRecord.Describes steps sr (e.step s) := by
  obtain ⟨hi, rfl⟩ := List.getElem?_eq_some_iff.mp hs
  have hlt : i < r.steps.length := h.listed.length_eq ▸ hi
  exact ⟨r.steps[i], List.getElem?_eq_getElem hlt, h.listed.get hlt hi⟩

/-- Who reads along the record comes by the places of the steps that the workflow would come by. -/
theorem visits (os : List Outcome) {i : Nat} (hs : steps[i]? = some s) :
    List.Forall₂ (fun j t => steps[j]? = some t) (r.visits (os.map (·.key)) i) (e.visits os s) := by
  induction os generalizing i s with
  | nil => exact .cons hs .nil
  | cons o os ih =>
    obtain ⟨sr, hr, hsr⟩ := h.entry hs
    have ho := hsr.place o
    rw [List.map_cons, WorkflowRecord.visits, Engine.visits, hr, Option.bind_some]
    generalize (Entries.get? o.key sr.next).join = j at ho ⊢
    generalize (e.step s).next? o = t at ho ⊢
    cases j <;> cases t
    case none.none => exact .cons hs .nil
    case some.some => exact .cons hs (ih (Option.some.inj ho))
    all_goals cases ho

/-- Workflows with one record mirror each other: a step is taken to the one at its place. -/
theorem mirrors {steps' : List StepId} (h' : r.Depicts steps' e' w')
    (hl : e.Lists (e.workflow w).first steps) (hl' : e'.Lists (e'.workflow w').first steps') :
    Mirrors (across steps steps') e w e' w' := by
  have hlength : steps.length = steps'.length := h.listed.length_eq.symm.trans h'.listed.length_eq
  have hplace : ∀ {i : Nat} {s : StepId}, steps[i]? = some s →
      steps'[i]? = some (across steps steps' s) := getElem?_across hl.nodup hlength
  refine
    { graph := ?graph
      steps := fun s hs => ?steps
      first := Option.some.inj ((hplace hl.head).symm.trans hl'.head)
      current := h.current.map_across hl.nodup hlength h'.current
      previous := h.previous.map_across hl.nodup hlength h'.previous
      history := ?history }
  case graph =>
    have hbij := bijOn_across hl.nodup hlength hl'.nodup
    simp only [hl.mem_iff, hl'.mem_iff] at hbij
    exact hbij
  case steps =>
    obtain ⟨i, hi⟩ := List.mem_iff_getElem?.mp ((hl.mem_iff s).mpr hs)
    obtain ⟨sr, hr, hd⟩ := h.entry hi
    obtain ⟨sr', hr', hd'⟩ := h'.entry (hplace hi)
    cases hr.symm.trans hr'
    exact hd.mirrors hl.nodup hlength hd'
  case history =>
    have hboth : List.Forall₂ (fun s t => across steps steps' s = t) (e.workflow w).history
        (e'.workflow w').history := by
      refine List.forall₂_iff_get.mpr ⟨h.history.length_eq.symm.trans h'.history.length_eq, ?_⟩
      intro n hn hn'
      have hlt : n < r.history.length := h.history.length_eq ▸ hn
      exact Option.some.inj ((hplace (h.history.get hlt hn)).symm.trans (h'.history.get hlt hn'))
    exact List.forall₂_eq_eq_eq ▸ (List.forall₂_map_left_iff.mpr hboth)

end WorkflowRecord.Depicts

/-! ## Records of workflows -/

namespace Engine

theorem recordWorkflow_depicts {r : WorkflowRecord} (h : recordWorkflow e w = .ok r) :
    r.Depicts (e.reachable (e.workflow w).first) e w := by
  obtain ⟨first, hfirst, h⟩ := exists_of_bind_ok h
  obtain ⟨current, hcurrent, h⟩ := exists_of_bind_ok h
  obtain ⟨previous, hprevious, h⟩ := exists_of_bind_ok h
  obtain ⟨history, hhistory, h⟩ := exists_of_bind_ok h
  obtain ⟨records, hrecords, h⟩ := exists_of_bind_ok h
  cases h
  have hl := lists_reachable e (e.workflow w).first
  refine ⟨?listed, ?first, optionalPlaceIn_refers hcurrent, optionalPlaceIn_refers hprevious, ?history⟩
  case listed => exact (forall₂_of_mapM hrecords).imp fun _ _ => recordStep_describes
  case first =>
    have hplace : (e.reachable (e.workflow w).first)[0]? = (e.reachable (e.workflow w).first)[first]? :=
      hl.head.trans (placeIn_refers hfirst).symm
    have hlt : 0 < (e.reachable (e.workflow w).first).length := by
      obtain ⟨hlt, -⟩ := List.getElem?_eq_some_iff.mp hl.head
      exact hlt
    exact congrArg some ((List.getElem?_inj hlt hl.nodup).mp hplace).symm
  case history => exact (forall₂_of_mapM hhistory).imp fun _ _ => placeIn_refers

/-- A record can be taken exactly if all that the workflow refers to can be reached. -/
theorem exists_record_iff :
    (∃ r, recordWorkflow e w = .ok r) ↔
      (∀ s ∈ (e.workflow w).current?, e.Leads (e.workflow w).first s) ∧
        (∀ s ∈ (e.workflow w).previous, e.Leads (e.workflow w).first s) ∧
          ∀ s ∈ (e.workflow w).history, e.Leads (e.workflow w).first s := by
  simp only [← mem_reachable_iff]
  constructor
  · rintro ⟨r, h⟩
    have hd := recordWorkflow_depicts h
    exact ⟨hd.current.mem, hd.previous.mem, fun s hs => hd.mem_of_mem_history hs⟩
  · rintro ⟨hcurrent, hprevious, hhistory⟩
    have hl := lists_reachable e (e.workflow w).first
    obtain ⟨first, hf⟩ := exists_placeIn (List.mem_of_getElem? hl.head)
    obtain ⟨current, hc⟩ := exists_optionalPlaceIn hcurrent
    obtain ⟨previous, hp⟩ := exists_optionalPlaceIn hprevious
    obtain ⟨history, hh⟩ := exists_mapM fun s hs => exists_placeIn (hhistory s hs)
    have hclosed := (reachable_explored e (e.workflow w).first).closed
    obtain ⟨records, hr⟩ := exists_mapM fun s hs =>
      exists_recordStep (hclosed s hs List.not_mem_nil)
    unfold recordWorkflow
    dsimp only
    rw [hf, hc, hp, hh, hr]
    exact ⟨_, rfl⟩

/-- The record of a workflow determines its graph. It lists the steps that can be reached, tells of each
its outcomes without repetition and which listed step follows each of them, and refers to the workflow's
own steps; so it is read as the workflow would go, and any workflow with the same record has a graph that
mirrors this one. -/
theorem record_determines_graph (hk : e.Keyed) {r : WorkflowRecord} (hr : recordWorkflow e w = .ok r) :
    ∃ steps, e.Lists (e.workflow w).first steps ∧ r.Depicts steps e w ∧
      (∀ sr ∈ r.steps, sr.available.Nodup) ∧
      (∀ os : List Outcome, List.Forall₂ (fun i s => steps[i]? = some s) (r.visits (os.map (·.key)) 0)
        (e.visits os (e.workflow w).first)) ∧
      ∀ {τ : Type} (e' : Engine τ) (w' : WorkflowId), recordWorkflow e' w' = .ok r →
        ∃ f, Mirrors f e w e' w' := by
  have hl := lists_reachable e (e.workflow w).first
  have hd := recordWorkflow_depicts hr
  refine ⟨_, hl, hd, fun sr hsr => ?_, fun os => hd.visits os hl.head, fun e' w' hr' => ?_⟩
  · obtain ⟨n, hn, rfl⟩ := List.mem_iff_getElem.mp hsr
    have hlt : n < (e.reachable (e.workflow w).first).length := hd.listed.length_eq ▸ hn
    have hdesc : StepRecord.Describes _ r.steps[n] _ := hd.listed.get hn hlt
    rw [hdesc.available]
    exact hk _
  · exact ⟨_, hd.mirrors (recordWorkflow_depicts hr') hl (lists_reachable e' _)⟩

/-- An article is written, reviewed and, if it is approved, published; if not, it is written again. -/
def revisionSteps : Engine Unit where
  steps := #[(Step.task "Task" "write" none).withSuccessor .complete (some ⟨2⟩),
    Step.task "Task" "publish" none,
    ((Step.ofDecision "Decision" "review" (some ⟨"anna"⟩) 1 [.approve, .deny] true).withSuccessor
      .approve (some ⟨1⟩)).withSuccessor .deny (some ⟨0⟩)]
  clock := .counter 1 1
  host := ()

def revision : Engine Unit := ((addWorkflow "article" ⟨0⟩ none 1 []).run revisionSteps).2

theorem keyed_revision : revision.Keyed :=
  keyed_of_steps (by simp only [Step.keyed_iff]; decide +kernel)

/-- The places of the steps are not their places in the record, and the record tells of the way back. -/
theorem revision_told :
    revision.Keyed ∧ ∃ r, recordWorkflow revision ⟨0⟩ = .ok r ∧
      ∃ steps, revision.Lists ⟨0⟩ steps ∧ r.Depicts steps revision ⟨0⟩ ∧
        List.Forall₂ (fun i s => steps[i]? = some s)
          (r.visits ["outcome.step.complete", "outcome.decision.deny", "outcome.step.complete"] 0)
          [⟨0⟩, ⟨2⟩, ⟨0⟩, ⟨2⟩] := by
  obtain ⟨r, hr⟩ : ∃ r, recordWorkflow revision ⟨0⟩ = .ok r := by
    have hok : (recordWorkflow revision ⟨0⟩).isOk = true := by decide +kernel
    cases h : recordWorkflow revision ⟨0⟩ with
    | error x => rw [h] at hok; cases hok
    | ok r => exact ⟨r, rfl⟩
  obtain ⟨steps, hl, hd, -, hv, -⟩ := record_determines_graph keyed_revision hr
  have hpath : revision.visits [.complete, .deny, .complete] ⟨0⟩ = [⟨0⟩, ⟨2⟩, ⟨0⟩, ⟨2⟩] := by
    decide +kernel
  exact ⟨keyed_revision, r, hr, steps, hl, hd, hpath ▸ hv [.complete, .deny, .complete]⟩

end Engine

end ApprovalFlow
