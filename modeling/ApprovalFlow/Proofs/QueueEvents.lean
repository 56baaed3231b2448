import ApprovalFlow.Proofs.ManagerInvariants
import Mathlib.Data.List.Chain
import Mathlib.Data.List.Nodup

/-!
# The events of a queue

A queue tells of every decision that it takes up and of every one that leaves it. A listener that was there from
the beginning has a ledger of the queue: the events that it has heard lead to the numbers of the decisions that
are queued (`Ledgered`), and from the numbers follows all that a queue answers (`faithful_of_ledgered`). Adding
a decision and taking one out keep the ledger in order.
-/

namespace ApprovalFlow

open Act

variable {σ γ : Type}

/-! ## Events of a queue -/

namespace EventKind

/-- The numbers that are queued after an event, if `numbers` were queued before. -/
def enact (numbers : List Nat) : EventKind → List Nat
  | queued n => numbers ++ [n]
  | dequeued n => numbers.erase n
  | _ => numbers

def moves? (n : Nat) : EventKind → Option Bool
  | queued k => if k = n then some true else none
  | dequeued k => if k = n then some false else none
  | _ => none

def isMove : EventKind → Bool
  | queued _ => true
  | dequeued _ => true
  | _ => false

end EventKind

def enacted (events : List Event) : List Nat :=
  events.foldl (fun numbers event => event.kind.enact numbers) []

def movesOf (n : Nat) (events : List Event) : List Bool := events.filterMap fun event => event.kind.moves? n

structure Alternates (moves : List Bool) : Prop where
  first : moves.head? ≠ some false
  turns : moves.IsChain (· ≠ ·)

/-- The events lead to a queue of decisions with these numbers: what is added was not there, and what is removed
was. -/
inductive Ledgered : List Event → List Nat → Prop
  | nil : Ledgered [] []
  | queued {events : List Event} {numbers : List Nat} {n : Nat} (id : Int) (h : Ledgered events numbers)
      (hn : n ∉ numbers) : Ledgered (events ++ [⟨id, .queued n⟩]) (numbers ++ [n])
  | dequeued {events : List Event} {numbers : List Nat} {n : Nat} (id : Int) (h : Ledgered events numbers)
      (hn : n ∈ numbers) : Ledgered (events ++ [⟨id, .dequeued n⟩]) (numbers.erase n)
  | aside {events : List Event} {numbers : List Nat} {event : Event} (h : Ledgered events numbers)
      (hk : event.kind.isMove = false) : Ledgered (events ++ [event]) numbers

theorem EventKind.enact_of_not_isMove {kind : EventKind} (hk : kind.isMove = false) (numbers : List Nat) :
    kind.enact numbers = numbers := by
  cases kind <;> first | rfl | contradiction

theorem EventKind.moves?_of_not_isMove {kind : EventKind} (hk : kind.isMove = false) (n : Nat) :
    kind.moves? n = none := by
  cases kind <;> first | rfl | contradiction

theorem enacted_concat (events : List Event) (event : Event) :
    enacted (events ++ [event]) = event.kind.enact (enacted events) := by
  unfold enacted
  rw [List.foldl_append]
  rfl

theorem movesOf_concat (n : Nat) (events : List Event) (event : Event) :
    movesOf n (events ++ [event]) = movesOf n events ++ (event.kind.moves? n).toList := by
  unfold movesOf
  rw [List.filterMap_append]
  cases h : event.kind.moves? n <;> simp only [List.filterMap, h, Option.toList]

theorem alternates_nil : Alternates [] := ⟨nofun, .nil⟩

/-- What comes next is a removal if an addition came last, and an addition otherwise. -/
theorem Alternates.concat {moves : List Bool} {b : Bool} (h : Alternates moves)
    (hb : moves.getLast? = some true ↔ b = false) : Alternates (moves ++ [b]) := by
  constructor
  · cases moves with
    | nil =>
      rintro hfirst
      exact absurd (hb.mpr (Option.some.inj hfirst)) nofun
    | cons first moves => exact h.first
  · refine List.isChain_append.mpr ⟨h.turns, .singleton b, fun x hx y hy => ?_⟩
    cases Option.some.inj hy
    rintro rfl
    cases x with
    | false => exact absurd ((hb.mpr rfl).symm.trans hx) nofun
    | true => exact absurd (hb.mp hx) nofun

namespace Ledgered

variable {events : List Event} {numbers : List Nat}

theorem nodup (h : Ledgered events numbers) : numbers.Nodup := by
  induction h with
  | nil => exact .nil
  | queued id h hn ih => exact List.concat_eq_append ▸ (List.nodup_concat _ _).mpr ⟨hn, ih⟩
  | dequeued id h hn ih => exact ih.erase _
  | aside h hk ih => exact ih

theorem enacted_eq (h : Ledgered events numbers) : enacted events = numbers := by
  induction h with
  | nil => rfl
  | queued id h hn ih => rw [enacted_concat, ih]; rfl
  | dequeued id h hn ih => rw [enacted_concat, ih]; rfl
  | aside h hk ih => rw [enacted_concat, EventKind.enact_of_not_isMove hk, ih]

/-- A number is queued if its last move was an addition, so that what can come next is what has to. -/
theorem alternates_and (h : Ledgered events numbers) (n : Nat) :
    Alternates (movesOf n events) ∧ ((movesOf n events).getLast? = some true ↔ n ∈ numbers) := by
  -- The induction carries the queue along, because what the next move has to be depends on it.
  induction h with
  | nil => exact ⟨alternates_nil, by simp only [movesOf, List.filterMap_nil, List.getLast?_nil, List.not_mem_nil,
      reduceCtorEq]⟩
  | @queued events numbers k id h hk ih =>
    obtain ⟨halt, hlast⟩ := ih
    rw [movesOf_concat]
    by_cases hkn : k = n
    · subst hkn
      have hmove : (EventKind.queued k).moves? k = some true := if_pos rfl
      simp only [hmove, Option.toList]
      refine ⟨halt.concat (iff_of_false (fun hl => hk (hlast.mp hl)) nofun), ?_⟩
      rw [List.getLast?_concat]
      exact iff_of_true rfl (List.mem_append_right _ (List.mem_singleton_self k))
    · have hmove : (EventKind.queued k).moves? n = none := if_neg hkn
      simp only [hmove, Option.toList, List.append_nil]
      refine ⟨halt, hlast.trans ?_⟩
      rw [List.mem_append, List.mem_singleton, or_iff_left fun hn => hkn hn.symm]
  | @dequeued events numbers k id h hk ih =>
    obtain ⟨halt, hlast⟩ := ih
    rw [movesOf_concat]
    by_cases hkn : k = n
    · subst hkn
      have hmove : (EventKind.dequeued k).moves? k = some false := if_pos rfl
      simp only [hmove, Option.toList]
      refine ⟨halt.concat (iff_of_true (hlast.mpr hk) rfl), ?_⟩
      rw [List.getLast?_concat]
      exact iff_of_false nofun h.nodup.not_mem_erase
    · have hmove : (EventKind.dequeued k).moves? n = none := if_neg hkn
      simp only [hmove, Option.toList, List.append_nil]
      exact ⟨halt, hlast.trans (List.mem_erase_of_ne fun hn => hkn hn.symm).symm⟩
  | @aside events numbers event h hk ih =>
    rw [movesOf_concat, EventKind.moves?_of_not_isMove hk]
    simpa only [Option.toList, List.append_nil] using ih

end Ledgered

/-- Taking a decision out takes its number out, if no other has it. -/
theorem map_filter_ne {f : StepId → Nat} {ss : List StepId} (hf : (ss.map f).Nodup) {s : StepId} (hs : s ∈ ss) :
    (ss.filter (· != s)).map f = (ss.map f).erase (f s) := by
  induction ss with
  | nil => exact absurd hs List.not_mem_nil
  | cons t ss ih =>
    obtain ⟨hnew, hnodup⟩ := List.nodup_cons.mp hf
    by_cases hts : t = s
    · subst hts
      -- What follows is not the decision, since its number is not there once more.
      have hothers : ss.filter (· != t) = ss := by
        refine List.filter_eq_self.mpr fun u hu => bne_iff_ne.mpr ?_
        rintro rfl
        exact hnew (List.mem_map_of_mem hu)
      rw [List.filter_cons_of_neg (by simp only [bne_self_eq_false, Bool.false_eq_true, not_false_iff]), hothers,
        List.map_cons, List.erase_cons_head]
    · have hmem : s ∈ ss := (List.mem_cons.mp hs).resolve_left fun h => hts h.symm
      have hne : f t ≠ f s := by
        intro heq
        rw [heq] at hnew
        exact hnew (List.mem_map_of_mem hmem)
      rw [List.filter_cons_of_pos (p := (· != s)) (bne_iff_ne.mpr hts), List.map_cons, List.map_cons,
        List.erase_cons_tail (fun h => hne (beq_iff_eq.mp h)), ih hnodup hmem]

/-! ## Queues -/

def Step.Numbered (a b : Step) : Prop := a.isDecision = true → b.isDecision = true ∧ b.number = a.number

theorem Step.number_of_frame {a b : Step} (h : b.frame = a.frame) : b.number = a.number := by
  have hn : b.frame.number = a.frame.number := congrArg number h
  simpa only [frame, number, Option.map_map, Function.comp_def] using hn

theorem Step.numbered_of_frame {a b : Step} (h : b.frame = a.frame) : a.Numbered b := fun ha =>
  ⟨(isDecision_of_frame h).trans ha, number_of_frame h⟩

instance : IsPreorder Step Step.Numbered where
  refl _ h := ⟨h, rfl⟩
  trans _ _ _ h h' ha := ⟨(h' (h ha).1).1, (h' (h ha).1).2.trans (h ha).2⟩

namespace Engine

variable {e e' : Engine σ} {q : QueueId}

def numbers (e : Engine σ) (q : QueueId) : List Nat := (e.queue q).decisions.map fun s => (e.step s).number

def Distinct (e : Engine σ) : Prop := ∀ s t, (e.step s).isDecision = true → (e.step t).isDecision = true →
  (e.step s).number = (e.step t).number → s = t

def Numbered (e e' : Engine σ) : Prop := ∀ s, (e.step s).Numbered (e'.step s)

/-- What a queue answers is what somebody knows of it who has heard these events. -/
structure Faithful (q : QueueId) (e : Engine σ) (heard : List Event) : Prop where
  /-- The events lead to the decisions that are queued, in order. -/
  enacted : enacted heard = e.numbers q
  /-- No decision is added while it is queued, or removed while it is not. -/
  alternates : ∀ n, Alternates (movesOf n heard)
  nodup : (e.queue q).decisions.Nodup
  /-- Of the numbers that are asked for, those of queued decisions are found and no others. -/
  found : ∀ i : Int, ∃ r, (findQueued? q i).run e = (.ok r, e) ∧
    ∀ s, r = some s ↔ s ∈ (e.queue q).decisions ∧ ((e.step s).number : Int) = i
  /-- Each actor has the decisions that are assigned to it, in the order of the queue. -/
  assigned : ∀ actor, (decisionsOf e q actor).Sublist (e.queue q).decisions ∧
    ∀ s, s ∈ decisionsOf e q actor ↔ s ∈ (e.queue q).decisions ∧ (e.step s).actor = actor

instance : IsPreorder (Engine σ) Numbered where
  refl _ _ := refl _
  trans _ _ _ h h' s := IsTrans.trans _ _ _ (h s) (h' s)

theorem numbered_of_steps (h : e'.steps = e.steps) : Numbered e e' := fun s => step_of_steps h s ▸ refl _

/-- If no two decisions have the same number in the end, none have before. -/
theorem Numbered.distinct (h : Numbered e e') (hd : e'.Distinct) : e.Distinct := by
  intro s t hs ht hst
  obtain ⟨hs', hns⟩ := h s hs
  obtain ⟨ht', hnt⟩ := h t ht
  exact hd s t hs' ht' (by rw [hns, hnt, hst])

/-- Of some decisions with different numbers the one with the number `i` is found. -/
theorem findNumbered?_ends (i : Int) {ss : List StepId} (hd : ∀ s ∈ ss, (e.step s).isDecision = true)
    (hn : (ss.map fun s => (e.step s).number).Nodup) :
    (findNumbered? i ss).Ends e
      (fun r e' => e' = e ∧ ∀ s, r = some s ↔ s ∈ ss ∧ ((e.step s).number : Int) = i) (fun _ _ => False) := by
  induction ss with
  | nil => exact ⟨rfl, fun s => iff_of_false nofun fun hs => List.not_mem_nil hs.1⟩
  | cons t ss ih =>
    obtain ⟨hnew, hn⟩ := List.nodup_cons.mp hn
    unfold findNumbered?
    rw [ends_bind]
    refine (numberOf_ends (hd t List.mem_cons_self)).mono ?_ fun _ _ => False.elim
    rintro n e ⟨rfl, rfl⟩
    split
    · rename_i hi
      refine ⟨rfl, fun s => ⟨?_, fun ⟨hs, hsi⟩ => ?_⟩⟩
      · rintro ⟨⟩
        exact ⟨List.mem_cons_self, hi⟩
      · -- A later one would have the same number as the first.
        rcases List.mem_cons.mp hs with rfl | hs
        · rfl
        · have hst : (e.step s).number = (e.step t).number := Int.ofNat.inj (hsi.trans hi.symm)
          exact absurd (List.mem_map.mpr ⟨s, hs, hst⟩) hnew
    · rename_i hi
      refine (ih (fun s hs => hd s (List.mem_cons_of_mem t hs)) hn).mono ?_ fun _ _ => False.elim
      rintro r _ ⟨rfl, hr⟩
      refine ⟨rfl, fun s => (hr s).trans ⟨fun ⟨hs, hsi⟩ => ⟨List.mem_cons_of_mem t hs, hsi⟩, fun ⟨hs, hsi⟩ => ?_⟩⟩
      rcases List.mem_cons.mp hs with rfl | hs
      · exact absurd hsi hi
      · exact ⟨hs, hsi⟩

/-- A queue of decisions to whose numbers the events lead answers what is known from the events. -/
theorem faithful_of_ledgered {heard : List Event} (hd : ∀ s ∈ (e.queue q).decisions, (e.step s).isDecision = true)
    (hl : Ledgered heard (e.numbers q)) : Faithful q e heard := by
  refine ⟨hl.enacted_eq, fun n => (hl.alternates_and n).1, hl.nodup.of_map _, fun i => ?_, fun actor => ?_⟩
  · have hfind : (findQueued? q i).Ends e
        (fun r e' => e' = e ∧ ∀ s, r = some s ↔ s ∈ (e.queue q).decisions ∧ ((e.step s).number : Int) = i)
        (fun _ _ => False) := by
      unfold findQueued?
      rw [ends_bind, ends_get]
      exact findNumbered?_ends i hd hl.nodup
    obtain ⟨r, e', hr, rfl, hfound⟩ := hfind.exists_ok
    exact ⟨r, hr, hfound⟩
  · refine ⟨List.filter_sublist, fun s => ?_⟩
    unfold decisionsOf
    rw [List.mem_filter, decide_eq_true_eq]

end Engine

/-! ## Ledgers -/

structure Sight where
  engine : Engine Unit
  heard : List Event

/-- A listener of a queue, what it has heard, and the sights that were taken on the way. -/
structure Ledger (σ : Type) where
  queue : QueueId
  listener : ListenerId
  heard : σ → List Event
  sights : σ → List Sight

namespace Ledger

open Engine

def sight (L : Ledger σ) (e : Engine σ) : Sight := ⟨{ e with host := () }, L.heard e.host⟩

/-- The listener listens to its queue and to no other, and all that it has heard leads to what is queued, now
and whenever a sight was taken. -/
structure Kept (L : Ledger σ) (e : Engine σ) : Prop where
  hasQueue : e.HasQueue L.queue
  listens : (e.queue L.queue).listeners.count L.listener = 1
  elsewhere : ∀ p, p ≠ L.queue → L.listener ∉ (e.queue p).listeners
  decisions : ∀ s ∈ (e.queue L.queue).decisions, (e.step s).isDecision = true
  ledgered : Ledgered (L.heard e.host) (e.numbers L.queue)
  sights : ∀ v ∈ L.sights e.host, Faithful L.queue v.engine v.heard

structure Keeps (L : Ledger σ) (e e' : Engine σ) : Prop where
  numbered : Numbered e e'
  kept : e'.Distinct → L.Kept e → L.Kept e'

structure Apart (L : Ledger σ) (e e' : Engine σ) : Prop where
  numbered : Numbered e e'
  hasQueue : e.HasQueue L.queue → e'.HasQueue L.queue
  queue : e'.queue L.queue = e.queue L.queue
  elsewhere : ∀ p, p ≠ L.queue → L.listener ∈ (e'.queue p).listeners → L.listener ∈ (e.queue p).listeners
  heard : L.heard e'.host = L.heard e.host
  sights : ∀ v ∈ L.sights e'.host, v ∈ L.sights e.host ∨ v = L.sight e

structure Hears (L : Ledger σ) (l : ListenerId) (event : Event) (e e' : Engine σ) : Prop where
  core : e'.core = e.core
  sights : L.sights e'.host = L.sights e.host
  heard : L.heard e'.host = L.heard e.host ++ if l = L.listener then [event] else []

def Listens (L : Ledger σ) (h : Hooks σ γ) : Prop :=
  ∀ l event e, (h.observe l event).Ends e (fun _ => L.Hears l event e) fun _ _ => False

variable {L : Ledger σ} {h : Hooks σ γ} {e e' e₁ : Engine σ} {p : QueueId} {s : StepId}

instance : IsPreorder (Engine σ) L.Keeps where
  refl _ := ⟨refl _, fun _ hk => hk⟩
  trans _ _ _ h h' := ⟨IsTrans.trans _ _ _ h.numbered h'.numbered, fun hd hk =>
    h'.kept hd (h.kept (h'.numbered.distinct hd) hk)⟩

theorem Kept.faithful (hk : L.Kept e) : Faithful L.queue e (L.heard e.host) :=
  faithful_of_ledgered hk.decisions hk.ledgered

theorem Kept.faithful_sight (hk : L.Kept e) : Faithful L.queue (L.sight e).engine (L.sight e).heard :=
  faithful_of_ledgered hk.decisions hk.ledgered

theorem Kept.numbers_eq (hk : L.Kept e) (hq : e'.queue L.queue = e.queue L.queue) (hn : Numbered e e') :
    e'.numbers L.queue = e.numbers L.queue := by
  unfold numbers
  rw [hq]
  exact List.map_congr_left fun s hs => (hn s (hk.decisions s hs)).2

theorem Apart.keeps (ha : L.Apart e e') : L.Keeps e e' := by
  refine ⟨ha.numbered, fun _ hk =>
    ⟨ha.hasQueue hk.hasQueue, ?_, fun p hp hl => ?_, fun s hs => ?_, ?_, fun v hv => ?_⟩⟩
  · rw [ha.queue]
    exact hk.listens
  · exact hk.elsewhere p hp (ha.elsewhere p hp hl)
  · rw [ha.queue] at hs
    exact (ha.numbered s (hk.decisions s hs)).1
  · rw [ha.heard, hk.numbers_eq ha.queue ha.numbered]
    exact hk.ledgered
  · rcases ha.sights v hv with hv | rfl
    · exact hk.sights v hv
    · exact hk.faithful_sight

/-- Whatever happens to steps, workflows and managers, the ledger is left alone. -/
theorem keeps_of_queues (hq : e'.queues = e.queues) (hh : e'.host = e.host) (hn : Numbered e e') : L.Keeps e e' := by
  have ha : L.Apart e e' := by
    refine ⟨hn, (hasQueue_of_queues hq _).mpr, queue_of_queues hq _, fun p _ hl => ?_, by rw [hh], fun v hv => ?_⟩
    · rwa [← queue_of_queues hq p]
    · rw [hh] at hv
      exact .inl hv
  exact ha.keeps

theorem keeps_mapStep {f : Step → Step} (hf : (e.step s).Numbered (f (e.step s))) : L.Keeps e (e.mapStep s f) :=
  keeps_of_queues rfl rfl fun t => rel_step_mapStep t f hf

theorem rules_keeps : Rules L.Keeps where
  aside _ _ _ _ := keeps_of_queues rfl rfl (numbered_of_steps rfl)
  work _ _ _ hf := keeps_mapStep (Step.numbered_of_frame hf.frame)
  workflow _ _ _ _ := keeps_of_queues rfl rfl (numbered_of_steps rfl)
  bind _ _ _ _ := keeps_mapStep fun hd => ⟨hd, rfl⟩
  reassign _ _ _ _ := keeps_mapStep fun hd => ⟨hd, rfl⟩
  manager _ _ _ := keeps_of_queues rfl rfl (numbered_of_steps rfl)

/-! ## Telling of a queue -/

section Telling

variable (hl : L.Listens h)
include hl

/-- What is told to some listeners is heard as often as the listener is among them. -/
theorem observers_hear (event : Event) (ls : List ListenerId) (e : Engine σ) :
    (ls.forM fun l => h.observe l event).Ends e
      (fun _ e' => e'.core = e.core ∧ L.sights e'.host = L.sights e.host ∧
        L.heard e'.host = L.heard e.host ++ List.replicate (ls.count L.listener) event) (fun _ _ => False) := by
  induction ls generalizing e with
  | nil => exact ⟨rfl, rfl, (List.append_nil _).symm⟩
  | cons l ls ih =>
    rw [ends_forM_cons]
    refine (hl l event e).mono (fun _ e₁ h₁ => (ih e₁).mono ?_ fun _ _ => id) fun _ _ => id
    rintro _ e₂ ⟨hc, hv, hheard⟩
    refine ⟨hc.trans h₁.core, hv.trans h₁.sights, ?_⟩
    rw [hheard, h₁.heard, List.append_assoc, List.count_cons]
    by_cases hlx : l = L.listener
    · rw [if_pos hlx, if_pos (beq_iff_eq.mpr hlx), List.replicate_succ, List.singleton_append]
    · rw [if_neg hlx, if_neg (fun h => hlx (beq_iff_eq.mp h)), List.nil_append, Nat.add_zero]

theorem emitQueue_hears (p : QueueId) (s : StepId) (kind : EventKind) (e : Engine σ) :
    (emitQueue h p s kind).Ends e
      (fun _ e' => e'.core = e.core ∧ L.sights e'.host = L.sights e.host ∧
        L.heard e'.host = L.heard e.host ++
          List.replicate ((e.queue p).listeners.count L.listener) ⟨(e.step s).workflowId.getD 0, kind⟩)
      (fun _ _ => False) := by
  unfold emitQueue
  rw [ends_bind, ends_get]
  exact observers_hear hl _ _ e

omit hl in
/-- The ledger is kept if what is heard then leads to what is queued then. -/
theorem keeps_of_told (hs : e'.steps = e.steps) (hq : e'.HasQueue L.queue ↔ e.HasQueue L.queue)
    (hls : ∀ p, (e'.queue p).listeners = (e.queue p).listeners) (hv : L.sights e'.host = L.sights e.host)
    (hled : L.Kept e → e.Distinct → (∀ s ∈ (e'.queue L.queue).decisions, (e.step s).isDecision = true) ∧
      Ledgered (L.heard e'.host) (e'.numbers L.queue)) : L.Keeps e e' := by
  have hn : Numbered e e' := numbered_of_steps hs
  refine ⟨hn, fun hd hk => ?_⟩
  obtain ⟨hdecisions, hledgered⟩ := hled hk (hn.distinct hd)
  refine ⟨hq.mpr hk.hasQueue, ?_, fun p hp => ?_, fun s hs => (hn s (hdecisions s hs)).1, hledgered, ?_⟩
  · rw [hls]
    exact hk.listens
  · rw [hls]
    exact hk.elsewhere p hp
  · rw [hv]
    exact hk.sights

/-- What is not about a decision that comes or goes is heard as well. -/
theorem observe_keeps (l : ListenerId) {event : Event} (hk : event.kind.isMove = false) :
    (h.observe l event).Always L.Keeps := by
  refine always_of_ends fun e => (hl l event e).mono (fun _ e' hh => ?_) fun _ _ => False.elim
  have hq : e'.queues = e.queues := congrArg Core.queues hh.core
  refine keeps_of_told (congrArg Core.steps hh.core) (hasQueue_of_queues hq _) (fun p => by
    rw [queue_of_queues hq]) hh.sights fun hkept _ => ⟨fun s hs => ?_, ?_⟩
  · rw [queue_of_queues hq] at hs
    exact hkept.decisions s hs
  · rw [hkept.numbers_eq (queue_of_queues hq _) (numbered_of_steps (congrArg Core.steps hh.core)), hh.heard]
    split
    · exact hkept.ledgered.aside hk
    · rw [List.append_nil]
      exact hkept.ledgered

theorem emitQueue_keeps {kind : EventKind} (hk : kind.isMove = false) : (emitQueue h p s kind).Always L.Keeps :=
  always_get.bind fun _ => Always.forM _ fun l _ => observe_keeps hl l hk

/-! ## Other queues -/

/-- The listener does not hear of other queues. -/
theorem emitQueue_keeps_of_ne (hp : p ≠ L.queue) (kind : EventKind) : (emitQueue h p s kind).Always L.Keeps := by
  refine always_of_ends fun e => (emitQueue_hears hl p s kind e).mono ?_ fun _ _ => False.elim
  rintro _ e' ⟨hc, hv, hheard⟩
  have hq : e'.queues = e.queues := congrArg Core.queues hc
  refine keeps_of_told (congrArg Core.steps hc) (hasQueue_of_queues hq _) (fun p => by
    rw [queue_of_queues hq]) hv fun hkept _ => ⟨fun s hs => ?_, ?_⟩
  · rw [queue_of_queues hq] at hs
    exact hkept.decisions s hs
  · rw [hkept.numbers_eq (queue_of_queues hq _) (numbered_of_steps (congrArg Core.steps hc)), hheard,
      List.count_eq_zero_of_not_mem (hkept.elsewhere p hp), List.replicate_zero, List.append_nil]
    exact hkept.ledgered

omit hl in
theorem updateQueue_keeps_of_ne (hp : p ≠ L.queue) {f : DecisionQueue → DecisionQueue}
    (hf : ∀ d, (f d).listeners = d.listeners) : (updateQueue p f : Act σ Unit).Always L.Keeps := by
  intro e
  have ha : L.Apart e (e.mapQueue p f) := by
    refine ⟨numbered_of_steps rfl, (hasQueue_mapQueue ..).mpr, queue_mapQueue_of_ne _ _ f hp.symm, fun r _ hr => ?_,
      rfl, fun _ => .inl⟩
    rw [queue_mapQueue] at hr
    split at hr
    · rwa [hf] at hr
    · exact hr
  exact ha.keeps

/-! ## Decisions that come and go -/

/-- The ledger is kept if one event is told of a change of its queue, and this leads to what is queued then. -/
theorem tell_keeps {f : DecisionQueue → DecisionQueue} (hf : ∀ d, (f d).listeners = d.listeners)
    (kind : EventKind) (hc : e₁.core = (e.mapQueue L.queue f).core) (hh : e₁.host = e.host)
    (hdecisions : L.Kept e → ∀ t ∈ (f (e.queue L.queue)).decisions, (e.step t).isDecision = true)
    (hled : L.Kept e → e.Distinct → ∀ id, Ledgered (L.heard e.host ++ [⟨id, kind⟩])
      ((f (e.queue L.queue)).decisions.map fun t => (e.step t).number)) :
    (emitQueue h L.queue s kind).Ends e₁ (fun _ => L.Keeps e) (fun _ => L.Keeps e) := by
  have hls : ∀ p, (e₁.queue p).listeners = (e.queue p).listeners := fun p => by
    rw [queue_of_core hc, queue_mapQueue]
    split
    · exact hf _
    · rfl
  refine (emitQueue_hears hl L.queue s kind e₁).mono ?_ fun _ _ => False.elim
  rintro _ e' ⟨hc', hv, hheard⟩
  have hcore : e'.core = (e.mapQueue L.queue f).core := hc'.trans hc
  have hsteps : e'.steps = e.steps := congrArg Core.steps hcore
  refine keeps_of_told hsteps ?_ (fun p => by rw [queue_of_core hc', hls]) (by rw [hv, hh]) fun hk hd => ?_
  · rw [hasQueue_of_queues (congrArg Core.queues hcore)]
    exact hasQueue_mapQueue ..
  have hqueue : e'.queue L.queue = f (e.queue L.queue) := by
    rw [queue_of_core hcore, queue_mapQueue_self _ f hk.hasQueue]
  refine ⟨by rw [hqueue]; exact hdecisions hk, ?_⟩
  rw [hheard, hh, hls, hk.listens, List.replicate_one]
  unfold numbers
  rw [hqueue]
  simp only [step_of_steps hsteps]
  exact hled hk hd _

/-- A decision that is not in the queue has a number that no other in the queue has. -/
theorem enqueue_keeps (hs : (e.step s).isDecision = true) :
    (enqueue h p s).Ends e (fun _ => L.Keeps e) (fun _ => L.Keeps e) := by
  unfold enqueue
  rw [ends_bind, ends_get, ends_onlyIf]
  cases hq : isQueued e p s
  case true => exact refl e
  rw [Bool.not_false, if_pos rfl]
  unfold appendQueued
  -- The ledger does not count what is moved at another queue.
  by_cases hp : p = L.queue
  case neg =>
    have hgrow : ∀ d : DecisionQueue, ({ d with decisions := d.decisions ++ [s] } : DecisionQueue).listeners =
        d.listeners := fun _ => rfl
    exact ((updateQueue_keeps_of_ne hp hgrow).bind fun _ => (always_numberOf s).bind fun n =>
      always_get.bind fun _ => rules_keeps.note.bind fun _ => emitQueue_keeps_of_ne hl hp (.queued n)).ends e
  subst hp
  rw [ends_bind, ends_updateQueue, ends_bind]
  refine (numberOf_ends (by exact hs)).mono ?_ fun _ _ => False.elim
  rintro n _ ⟨rfl, rfl⟩
  rw [ends_bind, ends_get, ends_bind, ends_note]
  refine tell_keeps hl (f := fun d => { d with decisions := d.decisions ++ [s] }) (fun _ => rfl) _ rfl rfl
    (fun hk t ht => ?_) fun hk hd id => ?_
  · rcases List.mem_append.mp ht with ht | ht
    · exact hk.decisions t ht
    · rw [List.mem_singleton.mp ht]
      exact hs
  · rw [List.map_append, List.map_singleton]
    refine hk.ledgered.queued id fun hn => ?_
    obtain ⟨t, ht, hts⟩ := List.mem_map.mp hn
    rw [hd t s (hk.decisions t ht) hs hts] at ht
    exact absurd (List.contains_iff_mem.mpr ht) (Bool.eq_false_iff.mp hq)

theorem dequeue_keeps (p : QueueId) (s : StepId) : (dequeue h p s).Always L.Keeps := by
  refine always_of_ends fun e => ?_
  unfold dequeue
  rw [ends_bind, ends_get, ends_onlyIf]
  cases hq : isQueued e p s
  case false => exact refl e
  rw [if_pos rfl]
  unfold removeQueued
  by_cases hp : p = L.queue
  case neg =>
    have hshrink : ∀ d : DecisionQueue, ({ d with decisions := d.decisions.filter (· != s) } :
        DecisionQueue).listeners = d.listeners := fun _ => rfl
    exact ((updateQueue_keeps_of_ne hp hshrink).bind fun _ => (always_numberOf s).bind fun n =>
      emitQueue_keeps_of_ne hl hp (.dequeued n)).ends e
  subst hp
  have hmem : s ∈ (e.queue L.queue).decisions := List.contains_iff_mem.mp hq
  rw [ends_bind, ends_updateQueue, ends_bind]
  refine (numberOf_tells s _).mono ?_ ?_
  · rintro n _ ⟨⟨-, rfl⟩, rfl⟩
    refine tell_keeps hl (f := fun d => { d with decisions := d.decisions.filter (· != s) }) (fun _ => rfl) _ rfl
      rfl (fun hk t ht => ?_) fun hk hd id => ?_
    · exact hk.decisions t (List.mem_of_mem_filter ht)
    · rw [map_filter_ne hk.ledgered.nodup hmem]
      exact hk.ledgered.dequeued id (List.mem_map_of_mem hmem)
  · -- What is in the queue is a decision.
    rintro _ _ ⟨hno, rfl⟩
    refine ⟨numbered_of_steps rfl, fun _ hk => ?_⟩
    exact absurd ((hk.decisions s hmem).symm.trans hno) nofun

end Telling

end Ledger

end ApprovalFlow
