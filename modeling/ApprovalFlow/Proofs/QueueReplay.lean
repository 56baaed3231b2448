import ApprovalFlow.Proofs.QueueEvents

/-!
# The events of a queue are its contents

Whoever adds decisions to a queue, takes them out, decides them or gives them to others, directly or by way of
managers, from outside or from within a hook, and however the calls end: the ledger of a queue is kept. So at any
time the events that a listener has heard since the queue was made lead to the decisions that are in it, and with
them to all that it answers (`faithful_throughout`).
-/

namespace ApprovalFlow

open Act

variable {σ γ : Type}

def Engine.takeUp (h : Hooks σ γ) (q : QueueId) (s : StepId) : Act σ Unit := do
  onlyIf ((← get).step s).isDecision (enqueue h q s)

namespace Ledger

open Engine

variable {L : Ledger σ} {h : Hooks σ γ} {e : Engine σ} {w : WorkflowId} {m : ManagerId} {q : QueueId} {s : StepId}
  {context : γ}

theorem distinct_of_size {n : Nat} (hn : e.steps.size ≤ n)
    (hd : ∀ i < n, ∀ j < n, (e.step ⟨i⟩).isDecision = true → (e.step ⟨j⟩).isDecision = true →
      (e.step ⟨i⟩).number = (e.step ⟨j⟩).number → i = j) : e.Distinct := fun s t hs ht hst =>
  congrArg StepId.mk (hd s.index (Nat.lt_of_lt_of_le (hasStep_of_isDecision hs) hn) t.index
    (Nat.lt_of_lt_of_le (hasStep_of_isDecision ht) hn) hs ht hst)

/-! ## Managers -/

section Telling

variable (hl : L.Listens h)
include hl

theorem takeUp_keeps (q : QueueId) (s : StepId) : (takeUp h q s).Always L.Keeps := by
  refine always_of_ends fun e => ?_
  unfold takeUp
  rw [ends_bind, ends_get, ends_onlyIf]
  split
  · rename_i hs
    exact enqueue_keeps hl hs
  · exact refl e

/-- A manager queues what a workflow waits for if it is a decision. -/
theorem onWaiting_keeps : (onWaiting h m w).Always L.Keeps := by
  refine always_of_ends fun e => ?_
  unfold onWaiting
  rw [ends_bind, ends_get]
  split
  · rename_i s _
    exact (ends_bind _ _).mp ((takeUp_keeps hl (e.manager m).queue s).ends e)
  · exact refl e

theorem onFinished_keeps : (onFinished h m w).Always L.Keeps := by
  refine always_get.bind fun e => Always.bind (Always.forM _ fun s _ => ?_) fun _ => ?_
  · exact always_get.bind fun _ => (dequeue_keeps hl _ s).onlyIf _
  · refine always_get.bind fun _ => (always_failIf _ _).bind fun _ => ?_
    exact (rules_keeps.updateManager _).bind fun _ => rules_keeps.note

theorem manage_keeps (event : Event) : (manage h m event).Always L.Keeps := by
  refine always_get.bind fun e => ?_
  split
  · exact always_pure _
  split
  · exact onWaiting_keeps hl
  · exact onFinished_keeps hl
  · exact onFinished_keeps hl
  · exact always_pure _

/-- The listener may listen to workflows as well: their events are about no queue. -/
theorem emit_keeps {kind : EventKind} (hk : kind.isOfQueue = false) : (emit h w kind).Always L.Keeps := by
  have hmove : kind.isMove = false := by cases kind <;> first | rfl | contradiction
  refine always_get.bind fun e => Always.forM _ fun l _ => ?_
  cases l with
  | manager m => exact manage_keeps hl _
  | observer l => exact observe_keeps hl l hmove

end Telling

/-! ## Programs -/

/-- Hooks whose listeners take note of events, and that keep the ledger whatever they do. -/
structure Serves (L : Ledger σ) (h : Hooks σ γ) : Prop where
  listens : L.Listens h
  starting : ∀ s, (h.starting s).Always L.Keeps
  execute : ∀ s context, (h.execute s context).Always L.Keeps
  present : ∀ s context, (h.present s context).Always L.Keeps

inductive Calls (L : Ledger σ) (below : Hooks σ γ → Prop) : {α : Type} → Act σ α → Prop
  | apart {α : Type} {m : Act σ α} (h : m.Always L.Apart) : Calls L below m
  | takeUp (h : Hooks σ γ) (q : QueueId) (s : StepId) (hb : below h) : Calls L below (takeUp h q s)
  | dequeue (h : Hooks σ γ) (q : QueueId) (s : StepId) (hb : below h) : Calls L below (dequeue h q s)
  | decideQueued (h : Hooks σ γ) (q : QueueId) (s : StepId) (o : Outcome) (actor : Option Actor)
      (hb : below h) : Calls L below (decideQueued h q s o actor)
  | reassignQueued (h : Hooks σ γ) (q : QueueId) (s : StepId) (actor : Option Actor) (hb : below h) :
      Calls L below (reassignQueued h q s actor)
  | startManaged (h : Hooks σ γ) (m : ManagerId) (w : WorkflowId) (context : γ) (hb : below h) :
      Calls L below (startManaged h m w context)
  | decide (h : Hooks σ γ) (m : ManagerId) (s : StepId) (o : Outcome) (actor : Option Actor)
      (context : γ) (hb : below h) : Calls L below (decide h m s o actor context)
  | advance (h : Hooks σ γ) (w : WorkflowId) (context : γ) (hb : below h) :
      Calls L below (advance h w context)
  | abort (h : Hooks σ γ) (w : WorkflowId) (hb : below h) : Calls L below (abort h w)
  | setOutcome (s : StepId) (o : Outcome) : Calls L below (setOutcome s o)
  | resolve (s : StepId) (o : Outcome) : Calls L below (resolve s o)
  | reassign (s : StepId) (actor : Option Actor) : Calls L below (reassign s actor)
  | bind {α β : Type} {m : Act σ α} {f : α → Act σ β} (hm : Calls L below m)
      (hf : ∀ a, Calls L below (f a)) : Calls L below (m >>= f)
  | tryCatch {α : Type} {m : Act σ α} {handle : Failure → Act σ α} (hm : Calls L below m)
      (hf : ∀ x, Calls L below (handle x)) : Calls L below (tryCatch m handle)

/-- Hooks whose listeners take note of events, and that may call the engine again a finite number of levels
deep. -/
inductive Attentive (L : Ledger σ) : Hooks σ γ → Prop
  | intro (h : Hooks σ γ) (below : Hooks σ γ → Prop) (nested : ∀ h', below h' → Attentive L h')
      (listens : L.Listens h)
      (starting : ∀ s, Calls L below (h.starting s))
      (execute : ∀ s context, Calls L below (h.execute s context))
      (present : ∀ s context, Calls L below (h.present s context)) : Attentive L h

/-- The queue has just been made, and the listener has been added to it and to no other queue. -/
structure Opened (L : Ledger σ) (e : Engine σ) : Prop where
  hasQueue : e.HasQueue L.queue
  empty : (e.queue L.queue).decisions = []
  listens : (e.queue L.queue).listeners.count L.listener = 1
  elsewhere : ∀ p, p ≠ L.queue → L.listener ∉ (e.queue p).listeners
  unheard : L.heard e.host = []
  unseen : L.sights e.host = []

theorem Opened.kept (ho : L.Opened e) : L.Kept e := by
  have hno : ∀ s, s ∉ (e.queue L.queue).decisions := fun s hs => by
    rw [ho.empty] at hs
    exact List.not_mem_nil hs
  refine ⟨ho.hasQueue, ho.listens, ho.elsewhere, fun s hs => absurd hs (hno s), ?_, fun v hv => ?_⟩
  · unfold numbers
    rw [ho.unheard, ho.empty]
    exact .nil
  · rw [ho.unseen] at hv
    exact absurd hv List.not_mem_nil

section Serving

variable (hs : L.Serves h)
include hs

theorem Serves.heed (w : WorkflowId) : h.Heed L.Keeps w :=
  ⟨hs.starting, hs.execute, hs.present, fun _ hk => emit_keeps hs.listens hk⟩

theorem decideQueued_keeps (o : Outcome) (actor : Option Actor) : (decideQueued h q s o actor).Always L.Keeps :=
  rules_keeps.decideQueued (dequeue_keeps hs.listens q s)

/-- That a decision is given to somebody else does not move it. -/
theorem reassignQueued_keeps (actor : Option Actor) : (reassignQueued h q s actor).Always L.Keeps :=
  rules_keeps.reassignQueued fun _ _ _ => emitQueue_keeps hs.listens rfl

theorem startManaged_keeps : (startManaged h m w context).Always L.Keeps := rules_keeps.startManaged (hs.heed w)

theorem decide_keeps (o : Outcome) (actor : Option Actor) : (decide h m s o actor context).Always L.Keeps :=
  rules_keeps.decide (dequeue_keeps hs.listens) hs.heed

theorem advance_keeps : (advance h w context).Always L.Keeps := rules_keeps.travels.advance (hs.heed w)

theorem abort_keeps : (abort h w).Always L.Keeps := rules_keeps.travels.abort (hs.heed w).emit

end Serving

theorem Calls.keeps {α : Type} {below : Hooks σ γ → Prop} {action : Act σ α} (hb : ∀ h, below h → L.Serves h)
    (hc : Calls L below action) : action.Always L.Keeps := by
  induction hc with
  | apart h => exact h.mono Apart.keeps
  | takeUp h q s hbelow => exact takeUp_keeps (hb h hbelow).listens q s
  | dequeue h q s hbelow => exact dequeue_keeps (hb h hbelow).listens q s
  | decideQueued h q s o actor hbelow => exact decideQueued_keeps (hb h hbelow) o actor
  | reassignQueued h q s actor hbelow => exact reassignQueued_keeps (hb h hbelow) actor
  | startManaged h m w context hbelow => exact startManaged_keeps (hb h hbelow)
  | decide h m s o actor context hbelow => exact decide_keeps (hb h hbelow) o actor
  | advance h w context hbelow => exact advance_keeps (hb h hbelow)
  | abort h w hbelow => exact abort_keeps (hb h hbelow)
  | setOutcome s o => exact rules_keeps.setOutcome o
  | resolve s o => exact rules_keeps.resolve o
  | reassign s actor => exact rules_keeps.reassignStep
  | bind _ _ ihm ihf => exact ihm.bind ihf
  | tryCatch _ _ ihm ihf => exact ihm.tryCatch ihf

theorem Attentive.serves (hh : L.Attentive h) : L.Serves h := by
  induction hh with
  | intro h below nested listens starting execute present ih =>
    exact ⟨listens, fun s => (starting s).keeps ih, fun s context => (execute s context).keeps ih,
      fun s context => (present s context).keeps ih⟩

/-- An operation keeps the ledger, whether it succeeds or fails. -/
theorem perform_keeps (hh : L.Attentive h) (op : Operation σ γ)
    (hop : ∀ action, op = .other action → Calls L (Attentive L : Hooks σ γ → Prop) action) :
    (perform h op).Always L.Keeps := by
  have hs := hh.serves
  cases op with
  | advance w context => exact (advance_keeps hs).bind fun _ => always_pure ()
  | abort w => exact abort_keeps hs
  | resolve s o => exact rules_keeps.resolve o
  | reassign s actor => exact rules_keeps.reassignStep
  | start m w context => exact (startManaged_keeps hs).bind fun _ => always_pure ()
  | decide m s o actor context => exact (decide_keeps hs o actor).bind fun _ => always_pure ()
  | decideQueued q s o actor => exact decideQueued_keeps hs o actor
  | reassignQueued q s actor => exact reassignQueued_keeps hs actor
  | other action => exact (hop action rfl).keeps fun _ ha => ha.serves

/-- The events that the listener has heard lead to what is queued, and no decision comes twice or goes before it
has come: after every run, however its operations have ended, and whenever a sight was taken on the way. -/
theorem faithful_throughout {ops : List (Operation σ γ)} (hh : L.Attentive h) (ho : L.Opened e)
    (hops : ∀ action, .other action ∈ ops → Calls L (Attentive L : Hooks σ γ → Prop) action)
    (hd : (runs h e ops).Distinct) :
    Faithful L.queue (runs h e ops) (L.heard (runs h e ops).host) ∧
      ∀ v ∈ L.sights (runs h e ops).host, Faithful L.queue v.engine v.heard := by
  have halong : Along h (fun _ op => ∀ action, op = .other action →
      Calls L (Attentive L : Hooks σ γ → Prop) action) e ops :=
    along_of_forall fun op hop action ha => hops action (ha ▸ hop)
  -- Whether the numbers are different is known at the end only, and then it was so all the time.
  have hkeeps : L.Keeps e (runs h e ops) := runs_invariant (P := L.Keeps e)
    (fun e₁ op h₁ hop => IsTrans.trans _ _ _ h₁ (perform_keeps hh op hop e₁)) (refl e) halong
  have hk : L.Kept (runs h e ops) := hkeeps.kept hd ho.kept
  exact ⟨hk.faithful, hk.sights⟩

/-! ## An office with a listener -/

structure Book where
  heard : List Event := []
  sights : List Sight := []

def register : Ledger Book where
  queue := ⟨0⟩
  listener := ⟨0⟩
  heard := Book.heard
  sights := Book.sights

def jot (l : ListenerId) (event : Event) : Act Book Unit :=
  onlyIf (l == register.listener) (updateHost fun d => { d with heard := d.heard ++ [event] })

def takeSight : Act Book Unit := modify fun e =>
  { e with host := { e.host with sights := e.host.sights ++ [register.sight e] } }

def sightingHooks : Hooks Book Unit where
  starting _ := takeSight
  execute _ _ := do
    takeSight
    return .complete
  present _ _ := takeSight
  observe := jot
  room := 0

/-- Hooks by which a task tries to decide what is not queued yet, and a decision queues itself. -/
def eagerHooks : Hooks Book Unit :=
  { sightingHooks with
    execute := fun _ _ => do
      tryCatch (decideQueued sightingHooks ⟨0⟩ ⟨1⟩ .approve none) fun _ => takeSight
      return .complete
    present := fun s _ => do
      takeUp sightingHooks ⟨0⟩ s
      takeSight }

def office : Engine Book :=
  ((do
    let m ← addManager ⟨"INFO", []⟩
    listenToQueue ⟨m.index⟩ ⟨0⟩
    let s ← addTask "Task" "draft" none
    let t ← addSimpleDecision "SimpleDecision" "sign" (some ⟨"ann"⟩) false
    let u ← addSimpleDecision "SimpleDecision" "countersign" (some ⟨"bob"⟩) true
    setSuccessor s (some t)
    addSuccessor t .approve (some u)
    let w ← addWorkflow "draft" s none 7 []
    listenTo w (.observer ⟨0⟩) : Act Book Unit).run { clock := .counter 1 1, host := {} }).2

/-- The draft is signed once by somebody who may not, and the second decision is given to somebody else and
taken out of the queue and put back. -/
def errands : List (Operation Book Unit) :=
  [.start ⟨0⟩ ⟨0⟩ (), .decideQueued ⟨0⟩ ⟨1⟩ .approve (some ⟨"cara"⟩), .decide ⟨0⟩ ⟨1⟩ .approve (some ⟨"ann"⟩) (),
    .reassignQueued ⟨0⟩ ⟨2⟩ (some ⟨"cara"⟩), .other (dequeue eagerHooks ⟨0⟩ ⟨1⟩), .other (dequeue eagerHooks ⟨0⟩ ⟨2⟩),
    .other (takeUp eagerHooks ⟨0⟩ ⟨2⟩), .other (takeUp eagerHooks ⟨0⟩ ⟨2⟩)]

theorem listens_jot {h : Hooks Book Unit} (hh : h.observe = jot) : register.Listens h := by
  intro l event e
  rw [hh, jot, ends_onlyIf]
  cases hl : l == register.listener
  case true =>
    refine ⟨rfl, rfl, ?_⟩
    rw [if_pos (beq_iff_eq.mp hl)]
    rfl
  case false =>
    refine ⟨rfl, rfl, ?_⟩
    rw [if_neg (beq_eq_false_iff_ne.mp hl)]
    exact (List.append_nil _).symm

theorem apart_takeSight : takeSight.Always register.Apart := by
  intro e
  refine ⟨numbered_of_steps rfl, id, rfl, fun _ _ => id, rfl, fun v hv => ?_⟩
  exact (List.mem_append.mp hv).imp_right List.mem_singleton.mp

theorem apart_pure {α : Type} (a : α) : (pure a : Act Book α).Always register.Apart := fun _ =>
  ⟨numbered_of_steps rfl, id, rfl, fun _ _ => id, rfl, fun _ => .inl⟩

theorem attentive_sightingHooks : register.Attentive sightingHooks := by
  refine .intro _ (fun _ => False) (fun _ => False.elim) (listens_jot rfl) (fun _ => .apart apart_takeSight)
    (fun _ _ => ?_) fun _ _ => .apart apart_takeSight
  exact (Calls.apart apart_takeSight).bind fun _ => .apart (apart_pure _)

theorem attentive_eagerHooks : register.Attentive eagerHooks := by
  refine .intro _ (· = sightingHooks) (fun _ hb => hb ▸ attentive_sightingHooks) (listens_jot rfl)
    (fun _ => .apart apart_takeSight) (fun _ _ => ?_) fun s _ => ?_
  · exact .bind (.tryCatch (.decideQueued sightingHooks _ _ _ _ rfl) fun _ => .apart apart_takeSight)
      fun _ => .apart (apart_pure _)
  · exact .bind (.takeUp sightingHooks _ s rfl) fun _ => .apart apart_takeSight

theorem opened_of_size {e : Engine Book} (hsize : e.queues.size = 1) (hempty : (e.queue ⟨0⟩).decisions = [])
    (hlisteners : (e.queue ⟨0⟩).listeners = [⟨0⟩]) (hheard : e.host.heard = []) (hsights : e.host.sights = []) :
    register.Opened e := by
  have hhas : ∀ p, e.HasQueue p → p = ⟨0⟩ := by
    rintro ⟨i⟩ hp
    exact congrArg QueueId.mk (Nat.lt_one_iff.mp (Nat.lt_of_lt_of_eq hp hsize))
  refine ⟨Nat.lt_of_lt_of_eq Nat.zero_lt_one hsize.symm, hempty, ?_, fun p hp hl => ?_, hheard, hsights⟩
  · show (e.queue ⟨0⟩).listeners.count ⟨0⟩ = 1
    rw [hlisteners]
    rfl
  · rw [queue_of_not_hasQueue fun h => hp (hhas p h)] at hl
    exact List.not_mem_nil hl

/-- The listener has heard of three additions and two removals, and the second decision is left in the queue. -/
theorem errands_accounted :
    ((register.heard (runs eagerHooks office errands).host).map (·.kind)).filter EventKind.isMove =
        [.queued 1, .dequeued 1, .queued 2, .dequeued 2, .queued 2] ∧
      (runs eagerHooks office errands).numbers ⟨0⟩ = [2] ∧
      (runs eagerHooks office errands).host.sights.length = 6 ∧
      Faithful ⟨0⟩ (runs eagerHooks office errands) (register.heard (runs eagerHooks office errands).host) ∧
      ∀ v ∈ register.sights (runs eagerHooks office errands).host, Faithful ⟨0⟩ v.engine v.heard := by
  have hsights : office.host.sights.length = 0 := by decide +kernel
  have hopened : register.Opened office := opened_of_size (by decide +kernel) (by decide +kernel) (by decide +kernel)
    (by decide +kernel) (List.eq_nil_of_length_eq_zero hsights)
  have hops : ∀ action, .other action ∈ errands →
      Calls register (Attentive register : Hooks Book Unit → Prop) action := by
    intro action ha
    have hcases : action = dequeue eagerHooks ⟨0⟩ ⟨1⟩ ∨ action = dequeue eagerHooks ⟨0⟩ ⟨2⟩ ∨
        action = takeUp eagerHooks ⟨0⟩ ⟨2⟩ := by simpa [errands] using ha
    rcases hcases with rfl | rfl | rfl
    · exact .dequeue _ _ _ attentive_eagerHooks
    · exact .dequeue _ _ _ attentive_eagerHooks
    · exact .takeUp _ _ _ attentive_eagerHooks
  have hdistinct : (runs eagerHooks office errands).Distinct :=
    distinct_of_size (n := 3) (by decide +kernel) (by decide +kernel)
  exact ⟨by decide +kernel, by decide +kernel, by decide +kernel,
    faithful_throughout attentive_eagerHooks hopened hops hdistinct⟩

end Ledger

end ApprovalFlow
