import ApprovalFlow.Engine.Graph
import ApprovalFlow.Engine.Traversal

/-!
# Records

A record is a copy of a workflow and its graph in plain data. Steps are listed in the order in which
they are reached from the first one, and refer to each other by their place in that list. A record can be
taken only while every step that the workflow refers to can be reached.
-/

namespace ApprovalFlow

/-- A step in a record. `next` tells for each outcome's key which listed step follows. -/
structure StepRecord where
  kind : String
  key : String
  actor : Option String
  state : StepState
  outcome : String
  startTime : Instant
  endTime : Instant
  errors : List String
  available : List String
  next : Entries String (Option Nat)
  number : Option Nat
  facts : List Fact
  deriving Repr, BEq, Inhabited

structure WorkflowRecord where
  id : Int
  key : String
  owner : Option String
  state : WorkflowState
  startTime : Instant
  endTime : Instant
  first : Option Nat
  current : Option Nat
  previous : Option Nat
  history : List Nat
  steps : List StepRecord
  context : Context
  arguments : List Value
  deriving Repr, BEq, Inhabited

namespace Engine

variable {σ : Type}

def placeIn (steps : List StepId) (s : StepId) : Except Failure Nat :=
  match steps.idxOf? s with
  | some i => .ok i
  | none => .error .unreachableStep

def optionalPlaceIn (steps : List StepId) : Option StepId → Except Failure (Option Nat)
  | none => .ok none
  | some s => some <$> placeIn steps s

def recordNext (steps : List StepId) (successors : List Successor) :
    Except Failure (Entries String (Option Nat)) :=
  successors.mapM fun s => do return (s.outcome.key, ← optionalPlaceIn steps s.target)

def recordStep (e : Engine σ) (steps : List StepId) (s : StepId) : Except Failure StepRecord := do
  let st := e.step s
  let next ← recordNext steps st.successors
  return {
    kind := st.kind
    key := st.key
    actor := st.actor.map (·.name)
    state := st.state
    outcome := st.outcome.key
    startTime := st.startTime
    endTime := st.endTime
    errors := st.errors
    available := st.available.map (·.key)
    next
    number := st.decision.map (·.number)
    facts := st.facts }

def recordWorkflow (e : Engine σ) (w : WorkflowId) : Except Failure WorkflowRecord := do
  let wf := e.workflow w
  let steps := e.reachable wf.first
  let first ← placeIn steps wf.first
  let current ← optionalPlaceIn steps wf.current?
  let previous ← optionalPlaceIn steps wf.previous
  let history ← wf.history.mapM (placeIn steps)
  let records ← steps.mapM (recordStep e steps)
  return {
    id := wf.id
    key := wf.key
    owner := wf.owner.map (·.name)
    state := wf.state
    startTime := wf.startTime
    endTime := wf.endTime
    first := some first
    current
    previous
    history
    steps := records
    context := e.context wf.context
    arguments := messageArguments e w }

end Engine

end ApprovalFlow
