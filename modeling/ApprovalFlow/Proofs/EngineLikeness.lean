import ApprovalFlow.Engine.Management
import ApprovalFlow.Proofs.Agreement
import ApprovalFlow.Proofs.Turns
import Mathlib.Data.List.Forall2

/-!
# Engines that are alike

Two engines are alike if steps, workflows, queues and managers are the same but for how outcomes and times
compare, and for what a `Likeness` leaves to the surroundings: the hosts, the clocks and the errors noted on
steps. Engines that are alike and change alike are alike again.
-/

namespace ApprovalFlow

structure Surroundings (σ : Type) where
  clock : Clock
  host : σ
  errors : StepId → List String

/-- How engines with hosts of two types compare: which outcomes and which times stand for each other, and
which surroundings go together. Reading the clocks gives times that stand for each other. -/
structure Likeness (σ τ : Type) where
  outcome : Outcome → Outcome → Prop
  time : Instant → Instant → Prop
  beyond : Surroundings σ → Surroundings τ → Prop
  outcome_refl : ∀ o, outcome o o
  key : ∀ {o o'}, outcome o o' → o.key = o'.key
  completion : ∀ {o o'}, outcome o o' → o.completion = o'.completion
  unset : ∀ {t t'}, time t t' → (t = Instant.unset ↔ t' = Instant.unset)
  now : ∀ {a a'}, beyond a a' → time a.clock.now a'.clock.now
  tick : ∀ {a a'}, beyond a a' → beyond { a with clock := a.clock.tick } { a' with clock := a'.clock.tick }

variable {σ τ : Type} {L : Likeness σ τ}

structure Successor.Like (L : Likeness σ τ) (a b : Successor) : Prop where
  outcome : L.outcome a.outcome b.outcome
  target : a.target = b.target

structure Step.Like (L : Likeness σ τ) (a b : Step) : Prop where
  kind : a.kind = b.kind
  key : a.key = b.key
  isTask : a.isTask = b.isTask
  actor : a.actor = b.actor
  state : a.state = b.state
  outcome : L.outcome a.outcome b.outcome
  successors : List.Forall₂ (Successor.Like L) a.successors b.successors
  startTime : L.time a.startTime b.startTime
  endTime : L.time a.endTime b.endTime
  workflowId : a.workflowId = b.workflowId
  context : a.context = b.context
  decision : a.decision = b.decision

structure Workflow.Like (L : Likeness σ τ) (a b : Workflow) : Prop where
  key : a.key = b.key
  owner : a.owner = b.owner
  id : a.id = b.id
  state : a.state = b.state
  first : a.first = b.first
  current : a.current = b.current
  previous : a.previous = b.previous
  history : a.history = b.history
  context : a.context = b.context
  arguments : a.arguments = b.arguments
  listeners : a.listeners = b.listeners
  startTime : L.time a.startTime b.startTime
  endTime : L.time a.endTime b.endTime

/-- The workflows are the same but for who listens to them and for how times compare. -/
structure Workflow.Akin (L : Likeness σ τ) (a b : Workflow) : Prop where
  key : a.key = b.key
  owner : a.owner = b.owner
  id : a.id = b.id
  state : a.state = b.state
  first : a.first = b.first
  current : a.current = b.current
  previous : a.previous = b.previous
  history : a.history = b.history
  context : a.context = b.context
  arguments : a.arguments = b.arguments
  startTime : L.time a.startTime b.startTime
  endTime : L.time a.endTime b.endTime

theorem Workflow.Like.akin {a b : Workflow} (h : Workflow.Like L a b) : Workflow.Akin L a b := { h with }

theorem Outcome.same_congr {o o' p p' : Outcome} (ho : o.key = o'.key) (hp : p.key = p'.key) :
    o.same p = o'.same p' := by
  unfold same
  rw [ho, hp]

namespace Successor

variable {o o' : Outcome} {l l' : List Successor}

/-- Looking up like outcomes in what is registered alike gives the same step, or none in both. -/
theorem find?_like (hl : List.Forall₂ (Like L) l l') (ho : o.key = o'.key) :
    (find? o l).map (·.target) = (find? o' l').map (·.target) := by
  induction hl with
  | nil => rfl
  | cons hs _ ih =>
    rw [find?, find?, Outcome.same_congr (L.key hs.outcome) ho]
    split
    · simp only [Option.map_some, hs.target]
    · exact ih

theorem register_like (hl : List.Forall₂ (Like L) l l') (ho : L.outcome o o') (target : Option StepId) :
    List.Forall₂ (Like L) (register o target l) (register o' target l') := by
  induction hl with
  | nil => exact .cons ⟨ho, rfl⟩ .nil
  | cons hs hrest ih =>
    rw [register, register, Outcome.same_congr (L.key hs.outcome) (L.key ho)]
    split
    · exact .cons ⟨hs.outcome, rfl⟩ hrest
    · exact .cons hs ih

end Successor

namespace Step.Like

variable {a b : Step} {o o' : Outcome} (h : Step.Like L a b)
include h

theorem isStarted : a.isStarted = b.isStarted := by
  unfold Step.isStarted
  rw [Bool.eq_iff_iff, bne_iff_ne, bne_iff_ne]
  exact not_congr (L.unset h.startTime)

theorem isCompleted : a.isCompleted = b.isCompleted := by
  unfold Step.isCompleted
  rw [h.state]

theorem isDecision : a.isDecision = b.isDecision := by
  unfold Step.isDecision
  rw [h.decision]

theorem isPending : a.isPending = b.isPending := by
  unfold Step.isPending
  rw [h.decision, h.isCompleted]

theorem number : a.number = b.number := by
  unfold Step.number
  rw [h.decision]

theorem isReassignable : a.isReassignable = b.isReassignable := by
  unfold Step.isReassignable
  rw [h.decision]

theorem next? (ho : o.key = o'.key) : a.next? o = b.next? o' := by
  have hf := Successor.find?_like h.successors ho
  unfold Step.next?
  rcases hx : Successor.find? o a.successors <;> rcases hy : Successor.find? o' b.successors <;>
    simp_all

theorem offers (ho : o.key = o'.key) : a.offers o = b.offers o' := by
  have hf := congrArg Option.isSome (Successor.find?_like h.successors ho)
  rwa [Option.isSome_map, Option.isSome_map] at hf

theorem permits (ho : o.key = o'.key) : a.permits o = b.permits o' := by
  unfold Step.permits
  rw [h.offers ho, Outcome.same_congr ho rfl, Outcome.same_congr ho rfl]

end Step.Like

section Self

variable {L : Likeness σ σ} (htime : ∀ t, L.time t t)
include htime

theorem Step.like_self (st : Step) : Step.Like L st st :=
  ⟨rfl, rfl, rfl, rfl, rfl, L.outcome_refl _, List.forall₂_same.mpr fun _ _ => ⟨L.outcome_refl _, rfl⟩,
    htime _, htime _, rfl, rfl, rfl⟩

theorem Workflow.like_self (wf : Workflow) : Workflow.Like L wf wf :=
  ⟨rfl, rfl, rfl, rfl, rfl, rfl, rfl, rfl, rfl, rfl, rfl, htime _, htime _⟩

end Self

/-- Where times stand for themselves only, workflows that are alike are equal. -/
theorem Workflow.Like.eq_of_time {L : Likeness σ σ} (htime : ∀ {t t'}, L.time t t' → t = t')
    {a b : Workflow} (h : Workflow.Like L a b) : a = b := by
  cases a
  cases b
  obtain ⟨rfl, rfl, rfl, rfl, rfl, rfl, rfl, rfl, rfl, rfl, rfl, hstart, hend⟩ := h
  cases htime hstart
  cases htime hend
  rfl

/-- Where outcomes and times stand for themselves only, steps that are alike differ in errors at most. -/
theorem Step.Like.eq_of_outcome {L : Likeness σ σ} (houtcome : ∀ {o o'}, L.outcome o o' → o = o')
    (htime : ∀ {t t'}, L.time t t' → t = t') {a b : Step} (h : Step.Like L a b)
    (he : a.errors = b.errors) : a = b := by
  have hsuccessors : a.successors = b.successors := by
    have hpair : ∀ x y, Successor.Like L x y → x = y := fun x y hx => by
      cases x
      cases y
      rw [Successor.mk.injEq]
      exact ⟨houtcome hx.outcome, hx.target⟩
    rw [← List.forall₂_eq_eq_eq]
    exact h.successors.imp hpair
  cases a
  cases b
  obtain ⟨rfl, rfl, rfl, rfl, rfl, houtcome', -, hstart, hend, rfl, rfl, rfl⟩ := h
  cases houtcome houtcome'
  cases htime hstart
  cases htime hend
  cases he
  cases hsuccessors
  rfl

namespace Engine

open Act

variable {γ : Type} {e e₁ : Engine σ} {e' e₁' : Engine τ}

def surroundings (e : Engine σ) : Surroundings σ := ⟨e.clock, e.host, fun s => (e.step s).errors⟩

structure Like (L : Likeness σ τ) (e : Engine σ) (e' : Engine τ) : Prop where
  size : e.steps.size = e'.steps.size
  step : ∀ s, Step.Like L (e.step s) (e'.step s)
  count : e.workflows.size = e'.workflows.size
  workflow : ∀ w, Workflow.Like L (e.workflow w) (e'.workflow w)
  queues : e.queues = e'.queues
  managers : e.managers = e'.managers
  contexts : e.contexts = e'.contexts
  catalog : e.catalog = e'.catalog
  decisions : e.decisions = e'.decisions
  beyond : L.beyond e.surroundings e'.surroundings

/-- An engine is like itself if its times and its surroundings go together with themselves. -/
theorem like_self {L : Likeness σ σ} (htime : ∀ t, L.time t t) (hb : L.beyond e.surroundings e.surroundings) :
    Like L e e where
  size := rfl
  step _ := Step.like_self htime _
  count := rfl
  workflow _ := Workflow.like_self htime _
  queues := rfl
  managers := rfl
  contexts := rfl
  catalog := rfl
  decisions := rfl
  beyond := hb

/-! ## Changes -/

section Changes

variable {s : StepId} {w : WorkflowId} (h : Like L e e')
include h

theorem Like.hasStep (s : StepId) : e.HasStep s ↔ e'.HasStep s := by
  unfold HasStep
  rw [h.size]

theorem Like.hasWorkflow (w : WorkflowId) : e.HasWorkflow w ↔ e'.HasWorkflow w := by
  unfold HasWorkflow
  rw [h.count]

theorem Like.queue (q : QueueId) : e.queue q = e'.queue q := by
  unfold Engine.queue
  rw [h.queues]

theorem Like.manager (m : ManagerId) : e.manager m = e'.manager m := by
  unfold Engine.manager
  rw [h.managers]

theorem Like.aside (j j' : Array Logging.Note) :
    Like L (e.aside j e.clock) (e'.aside j' e'.clock) :=
  { h with beyond := h.beyond }

theorem Like.ticked (j j' : Array Logging.Note) :
    Like L (e.aside j e.clock.tick) (e'.aside j' e'.clock.tick) :=
  { h with beyond := L.tick h.beyond }

omit h in
theorem surroundings_mapStep {ρ : Type} {e : Engine ρ} {f : Step → Step}
    (he : (f (e.step s)).errors = (e.step s).errors) :
    (e.mapStep s f).surroundings = e.surroundings := by
  unfold Engine.surroundings
  congr 1
  exact funext (step_mapStep_eq he)

/-- Changes of a step on both sides, to what is alike again. -/
theorem Like.mapStep_of_beyond {f f' : Step → Step}
    (hf : Step.Like L (f (e.step s)) (f' (e'.step s)))
    (hb : L.beyond (e.mapStep s f).surroundings (e'.mapStep s f').surroundings) :
    Like L (e.mapStep s f) (e'.mapStep s f') :=
  { h with
    size := by simpa [Engine.mapStep] using h.size
    step := by
      intro t
      simp only [step_mapStep, h.hasStep s]
      split
      · rename_i hts
        rw [hts.1]
        exact hf
      · exact h.step t
    beyond := hb }

/-- Changes that leave the errors alone. -/
theorem Like.mapStep {f f' : Step → Step} (hf : Step.Like L (f (e.step s)) (f' (e'.step s)))
    (he : (f (e.step s)).errors = (e.step s).errors)
    (he' : (f' (e'.step s)).errors = (e'.step s).errors) :
    Like L (e.mapStep s f) (e'.mapStep s f') := by
  apply h.mapStep_of_beyond hf
  rw [surroundings_mapStep he, surroundings_mapStep he']
  exact h.beyond

/-- An error is noted on the second side alone, if that goes with the surroundings. -/
theorem Like.noted {text : String}
    (hb : L.beyond e.surroundings
      (e'.mapStep s fun st => { st with errors := st.errors ++ [text] }).surroundings) :
    Like L e (e'.mapStep s fun st => { st with errors := st.errors ++ [text] }) := by
  have hid : e.mapStep s id = e := mapStep_eq_self rfl
  have hs : Step.Like L (id (e.step s)) { e'.step s with errors := (e'.step s).errors ++ [text] } :=
    { h.step s with }
  have hl : Like L (e.mapStep s id) (e'.mapStep s fun st => { st with errors := st.errors ++ [text] }) :=
    h.mapStep_of_beyond hs (by rw [hid]; exact hb)
  rwa [hid] at hl

theorem Like.mapWorkflow {f f' : Workflow → Workflow}
    (hf : Workflow.Like L (f (e.workflow w)) (f' (e'.workflow w))) :
    Like L (e.mapWorkflow w f) (e'.mapWorkflow w f') :=
  { h with
    count := by simpa [Engine.mapWorkflow] using h.count
    workflow := by
      intro v
      simp only [workflow_mapWorkflow, h.hasWorkflow w]
      split
      · rename_i hvw
        rw [hvw.1]
        exact hf
      · exact h.workflow v
    beyond := h.beyond }

theorem Like.mapQueue (q : QueueId) (f : DecisionQueue → DecisionQueue) :
    Like L (e.mapQueue q f) (e'.mapQueue q f) :=
  { h with
    queues := congrArg (·.modify q.index f) h.queues
    beyond := h.beyond }

theorem Like.mapManager (m : ManagerId) (f : Manager → Manager) :
    Like L (e.mapManager m f) (e'.mapManager m f) :=
  { h with
    managers := congrArg (·.modify m.index f) h.managers
    beyond := h.beyond }

end Changes

/-! ## Parts of operations -/

/-- What is said of the surroundings alone. -/
abbrev Quietly : Unit → Unit → Prop := fun _ _ => True

def startHooked (s : StepId) : Act σ Unit := do
  let st := (← get).step s
  failIf (st.isDecision && st.actor.isNone) (.noActor st.key)
  startStep s

theorem start_eq (h : Hooks σ γ) (s : StepId) :
    start h s = h.starting s >>= fun _ => startHooked s := rfl

def notePresented (s : StepId) : Act σ Unit := do
  updateStep s fun st =>
    { st with decision := st.decision.map fun d => { d with begun := true } }
  let st := (← get).step s
  note decisionLogger .info "Decision awaiting actor"
    [("decision_id", .int st.number), ("workflow_id", shownId st.workflowId),
      ("actor", shownActor st.actor)]

theorem presentDecision_eq (h : Hooks σ γ) (s : StepId) (context : γ) :
    presentDecision h s context = h.present s context >>= fun _ => notePresented s := rfl

def giveResult (s : StepId) (o : Outcome) : Act σ Unit := do
  let st := (← get).step s
  onlyIf (!st.isCompleted && !o.same .proceed) (setOutcome s o)

theorem executeStep_eq (h : Hooks σ γ) (w : WorkflowId) (s : StepId) (context : γ) :
    executeStep h w s context = guarding w s (execute h s context) >>= giveResult s := rfl

def conclude (h : Hooks σ γ) (w : WorkflowId) (s : StepId) : Act σ Progress := do
  if ((← get).step s).isCompleted then leave h w s else pause h w s

theorem turn_eq (h : Hooks σ γ) (w : WorkflowId) (context : γ) :
    turn h w context = (do
      let s := ((← get).workflow w).current
      onlyIf (!((← get).step s).isCompleted) (runStep h w s context)
      conclude h w s) := rfl

def ObservesAlike (L : Likeness σ τ) (h : Hooks σ γ) (h' : Hooks τ γ) : Prop :=
  ∀ l event e e', Like L e e' → Agree (Like L) Quietly (h.observe l event) (h'.observe l event) e e'

end Engine

structure Hooks.Matches {γ : Type} (L : Likeness σ τ) (h : Hooks σ γ) (h' : Hooks τ γ) : Prop where
  starting : ∀ s e e', Engine.Like L e e' →
    Act.Agree (Engine.Like L) Engine.Quietly (h.starting s) (h'.starting s) e e'
  execute : ∀ s c e e', Engine.Like L e e' →
    Act.Agree (Engine.Like L) L.outcome (h.execute s c) (h'.execute s c) e e'
  present : ∀ s c e e', Engine.Like L e e' →
    Act.Agree (Engine.Like L) Engine.Quietly (h.present s c) (h'.present s c) e e'
  observe : Engine.ObservesAlike L h h'
  room : h.room = h'.room

def Hooks.idle : Hooks σ Unit where
  starting _ := pure ()
  execute _ _ := pure .complete
  present _ _ := pure ()
  observe _ _ := pure ()
  room := 0

theorem Hooks.matches_idle : Hooks.idle.Matches L Hooks.idle where
  starting _ _ _ hl := Act.agree_pure trivial hl
  execute _ _ _ _ hl := Act.agree_pure (L.outcome_refl _) hl
  present _ _ _ _ hl := Act.agree_pure trivial hl
  observe _ _ _ _ hl := Act.agree_pure trivial hl
  room := rfl

end ApprovalFlow
