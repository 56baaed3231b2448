import ApprovalFlow.Scenario.State

/-!
# Views

What a scenario shows of a thing: its state with other things replaced by their names. Two views look alike
if they differ only in the order of an object's fields, or in truth values that stand for zero and one.
-/

namespace ApprovalFlow.Scenario

structure DecisionView where
  number : Nat
  pending : Bool
  reassignable : Bool
  facts : List Fact
  deriving Repr, BEq, Inhabited

structure StepView where
  state : StepState
  started : Bool
  completed : Bool
  outcome : Outcome
  startTime : Instant
  endTime : Instant
  actor : Option Actor
  errors : List String
  workflowId : Option Int
  successors : List (String × Option String)
  decision : Option DecisionView
  deriving Repr, BEq, Inhabited

structure WorkflowView where
  id : Int
  state : WorkflowState
  first : String
  current : Option String
  previous : Option String
  history : List String
  owner : Option Actor
  currentActor : Option Actor
  startTime : Instant
  endTime : Instant
  context : Context
  arguments : List Value
  deriving Repr, BEq, Inhabited

structure ManagerView where
  running : List (Int × String)
  finished : List String
  queue : List String
  deriving Repr, BEq, Inhabited

inductive View where
  | step (v : StepView)
  | workflow (v : WorkflowView)
  | manager (v : ManagerView)
  | queue (decisions : List String)
  deriving Repr, BEq, Inhabited

def inOrder (fields : List (String × Value)) : List (String × Value) :=
  fields.mergeSort fun a b => a.1 ≤ b.1

mutual

/-- The value that stands for all values that look like this one. -/
def settle : Value → Value
  | .bool b => .int (if b then 1 else 0)
  | .list items => .list (settleAll items)
  | .tuple items => .tuple (settleAll items)
  | .object fields => .object (inOrder (settleFields fields))
  | .fact key v => .fact key (settle v)
  | v => v

def settleAll : List Value → List Value
  | [] => []
  | v :: rest => settle v :: settleAll rest

def settleFields : List (String × Value) → List (String × Value)
  | [] => []
  | (name, v) :: rest => (name, settle v) :: settleFields rest

end

def View.settled : View → View
  | .step v => .step { v with
      decision := v.decision.map fun d =>
        { d with facts := d.facts.map fun f => { f with value := settle f.value } } }
  | .workflow v => .workflow { v with
      context := inOrder (settleFields v.context)
      arguments := settleAll v.arguments }
  | v => v

def View.alike (a b : View) : Bool := a.settled == b.settled

variable (e : Engine State)

def viewStep (s : StepId) : StepView :=
  let st := e.step s
  { state := st.state
    started := st.isStarted
    completed := st.isCompleted
    outcome := st.outcome
    startTime := st.startTime
    endTime := st.endTime
    actor := st.actor
    errors := st.errors
    workflowId := st.workflowId
    successors := st.successors.map fun x => (x.outcome.key, x.target.map e.host.stepName)
    decision := st.decision.map fun d =>
      { number := d.number, pending := st.isPending, reassignable := d.reassignable,
        facts := d.facts } }

def viewWorkflow (w : WorkflowId) : WorkflowView :=
  let wf := e.workflow w
  { id := wf.id
    state := wf.state
    first := e.host.stepName wf.first
    current := wf.current?.map e.host.stepName
    previous := wf.previous.map e.host.stepName
    history := wf.history.map e.host.stepName
    owner := wf.owner
    currentActor := Engine.currentActor e w
    startTime := wf.startTime
    endTime := wf.endTime
    context := e.context wf.context
    arguments := Engine.messageArguments e w }

def viewQueue (q : QueueId) : List String :=
  (e.queue q).decisions.map e.host.stepName

/-- The view of a manager. A workflow is shown with the id it has. -/
def viewManager (m : ManagerId) : ManagerView :=
  let mg := e.manager m
  { running := mg.running.map fun (_, w) => ((e.workflow w).id, e.host.workflowName w)
    finished := mg.finished.map e.host.workflowName
    queue := viewQueue e mg.queue }

def view : Subject → View
  | .step s => .step (viewStep e s)
  | .workflow w => .workflow (viewWorkflow e w)
  | .manager m => .manager (viewManager e m)
  | .queue q => .queue (viewQueue e q)

end ApprovalFlow.Scenario
