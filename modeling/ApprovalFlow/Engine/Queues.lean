import ApprovalFlow.Engine.Steps

/-!
# Operations on queues

A queue holds each decision at most once, in the order in which they came. Deciding through a queue is
left to the actor to whom the decision is assigned; a decision that is completed so leaves the queue. A
queue speaks of its decisions by their numbers, and fails for a step that has none.
-/

namespace ApprovalFlow.Engine

open Act (failIf onlyIf)
open Logging (Level)

variable {σ γ : Type}

def queueLogger : String := "step_workflow.workflow.decision_queue"

def numberOf (s : StepId) : Act σ Nat := do
  let st := (← get).step s
  match st.decision with
  | some d => return d.number
  | none => throw (.lacking st.kind "decision_id")

def emitQueue (h : Hooks σ γ) (q : QueueId) (s : StepId) (kind : EventKind) : Act σ Unit := do
  let e ← get
  let event : Event := ⟨(e.step s).workflowId.getD 0, kind⟩
  (e.queue q).listeners.forM fun l => h.observe l event

def isQueued (e : Engine σ) (q : QueueId) (s : StepId) : Bool := (e.queue q).decisions.contains s

def requireQueued (q : QueueId) (s : StepId) : Act σ Unit := do
  if !isQueued (← get) q s then
    throw (.notQueued (← numberOf s))

def appendQueued (h : Hooks σ γ) (q : QueueId) (s : StepId) : Act σ Unit := do
  updateQueue q fun d => { d with decisions := d.decisions ++ [s] }
  let number ← numberOf s
  let st := (← get).step s
  note queueLogger .info "Decision queued"
    [("decision_id", .int number), ("workflow_id", shownId st.workflowId),
      ("actor", shownActor st.actor)]
  emitQueue h q s (.queued number)

/-- Adds a decision at the end, unless it is in the queue. -/
def enqueue (h : Hooks σ γ) (q : QueueId) (s : StepId) : Act σ Unit := do
  onlyIf (!isQueued (← get) q s) (appendQueued h q s)

def removeQueued (h : Hooks σ γ) (q : QueueId) (s : StepId) : Act σ Unit := do
  updateQueue q fun d => { d with decisions := d.decisions.filter (· != s) }
  emitQueue h q s (.dequeued (← numberOf s))

/-- Takes a decision out of the queue, if it is there. -/
def dequeue (h : Hooks σ γ) (q : QueueId) (s : StepId) : Act σ Unit := do
  onlyIf (isQueued (← get) q s) (removeQueued h q s)

/-- Resolves a queued decision as `actor`, who has to be the one it is assigned to. -/
def decideQueued (h : Hooks σ γ) (q : QueueId) (s : StepId) (o : Outcome) (actor : Option Actor) :
    Act σ Unit := do
  requireQueued q s
  let st := (← get).step s
  failIf (actor != st.actor) (.actorNotPermitted (Actor.display actor) (Actor.display st.actor))
  resolve s o
  onlyIf ((← get).step s).isCompleted (dequeue h q s)

def reassignQueued (h : Hooks σ γ) (q : QueueId) (s : StepId) (actor : Option Actor) :
    Act σ Unit := do
  requireQueued q s
  let st := (← get).step s
  reassign s actor
  emitQueue h q s (.reassigned st.number (Actor.display st.actor) (Actor.display actor))

/-- The queued decisions that are assigned to an actor, in order. -/
def decisionsOf (e : Engine σ) (q : QueueId) (actor : Option Actor) : List StepId :=
  (e.queue q).decisions.filter fun s => (e.step s).actor = actor

def findNumbered? (number : Int) : List StepId → Act σ (Option StepId)
  | [] => pure none
  | s :: rest => do
    if ((← numberOf s) : Int) = number then return some s else findNumbered? number rest

def findQueued? (q : QueueId) (number : Int) : Act σ (Option StepId) := do
  findNumbered? number ((← get).queue q).decisions

def listenToQueue (q : QueueId) (l : ListenerId) : Act σ Unit :=
  updateQueue q fun d => { d with listeners := d.listeners ++ [l] }

end ApprovalFlow.Engine
