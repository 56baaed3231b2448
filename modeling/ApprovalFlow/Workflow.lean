import ApprovalFlow.Event
import ApprovalFlow.Settings
import ApprovalFlow.Step

/-!
# Workflows, queues and managers

A workflow is driven along a graph of steps from its first one. A queue lists decisions that wait for
their actors. A manager gives ids to workflows, keeps the running and the finished ones, and has a queue
for their decisions.
-/

namespace ApprovalFlow

structure WorkflowId where
  index : Nat
  deriving Repr, DecidableEq, Inhabited

structure QueueId where
  index : Nat
  deriving Repr, DecidableEq, Inhabited

/-- A workflow. `history` holds the steps that were left behind; `context` is shared with the steps. -/
structure Workflow where
  key : String
  owner : Option Actor
  id : Int
  state : WorkflowState := .created
  first : StepId
  current : StepId
  previous : Option StepId := none
  history : List StepId := []
  context : ContextId
  arguments : List Value := []
  startTime : Instant := Instant.unset
  endTime : Instant := Instant.unset
  listeners : List Listener := []
  deriving Repr, BEq, Inhabited

namespace Workflow

/-- The step being worked on; there is none once the workflow is over. -/
def current? (w : Workflow) : Option StepId :=
  if w.state.isTerminal then none else some w.current

def describe (w : Workflow) : String :=
  "Workflow(id=" ++ toString w.id ++ ", " ++ Text.quoted w.key ++ ", state=" ++ w.state.name ++ ")"

/-- A name for messages that need one: a dash stands for nobody. -/
def nameOrDash (a : Option Actor) : String :=
  match a with
  | some a => a.name
  | none => "-"

end Workflow

/-- Decisions that wait for their actors, in the order in which they began to wait. -/
structure DecisionQueue where
  decisions : List StepId := []
  listeners : List ListenerId := []
  deriving Repr, DecidableEq, Inhabited

/-- A manager. `running` has the workflows by the id under which they were registered. -/
structure Manager where
  settings : Settings
  queue : QueueId
  nextId : Nat := 1
  running : Entries Int WorkflowId := []
  finished : List WorkflowId := []
  deriving Repr, DecidableEq, Inhabited

end ApprovalFlow
