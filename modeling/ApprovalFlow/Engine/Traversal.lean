import ApprovalFlow.Engine.Events

/-!
# Driving a workflow

`advance` executes the current step, follows the successor of its outcome, and repeats. It stops when the
workflow completes or aborts, when a decision has to wait for its actor, or when a task asks to be run
again. A failure of business is noted on the step and leaves the workflow where it is, so that the next
`advance` tries the step again.
-/

namespace ApprovalFlow.Engine

open Act (failIf onlyIf)
open Logging (Level)

variable {σ γ : Type}

def workflowLogger : String := "step_workflow.workflow.workflow"

/-- Makes a workflow and binds its first step to it. -/
def addWorkflow (key : String) (first : StepId) (owner : Option Actor) (id : Int) (context : Context) :
    Act σ WorkflowId := do
  let c : ContextId := ⟨(← get).contexts.size⟩
  bindStep first id c
  modifyGet fun e =>
    (⟨e.workflows.size⟩,
      { e with
        contexts := e.contexts.push context
        workflows := e.workflows.push { key, owner, id, first, current := first, context := c } })

def moveWorkflow (w : WorkflowId) (next : WorkflowState) : Act σ Unit := do
  let wf := (← get).workflow w
  failIf (!wf.state.allows next) (.workflowMove wf.state next)
  updateWorkflow w ({ · with state := next })
  note workflowLogger .info "Workflow state changed"
    [("workflow_id", .int wf.id), ("workflow", .text wf.key), ("state", .text next.name)]

def assignId (w : WorkflowId) (id : Int) : Act σ Unit := do
  let wf := (← get).workflow w
  failIf (wf.state != .created) (.fixedId wf.state)
  updateWorkflow w ({ · with id })
  bindStep wf.first id wf.context

/-- Runs an action for a step. If it fails for reasons of business, that is noted on the step. -/
def guarding {α : Type} (w : WorkflowId) (s : StepId) (action : Act σ α) : Act σ α :=
  tryCatch action fun f => do
    match f.businessText? with
    | some text =>
      addError s text
      let e ← get
      note workflowLogger .warning "Step failed"
        [("workflow_id", .int (e.workflow w).id), ("step", .text (e.step s).key),
          ("error", .text text)]
      throw f
    | none => throw f

/-- Executes a step and gives it the outcome that results, unless that is to go on. -/
def executeStep (h : Hooks σ γ) (w : WorkflowId) (s : StepId) (context : γ) : Act σ Unit := do
  let o ← guarding w s (execute h s context)
  let st := (← get).step s
  onlyIf (!st.isCompleted && !o.same .proceed) (setOutcome s o)

/-- Runs a step: starts it if it has not started; a decision before its actor is left alone. -/
def runStep (h : Hooks σ γ) (w : WorkflowId) (s : StepId) (context : γ) : Act σ Unit := do
  let st := (← get).step s
  onlyIf (!st.isStarted) (guarding w s (start h s))
  onlyIf (!(st.isStarted && st.isPending)) (executeStep h w s context)

def finish (h : Hooks σ γ) (w : WorkflowId) (next : WorkflowState) (kind : EventKind) : Act σ Unit := do
  moveWorkflow w next
  let t ← readClock
  updateWorkflow w ({ · with endTime := t })
  emit h w kind

def record (w : WorkflowId) (s : StepId) : Act σ Unit :=
  updateWorkflow w fun wf => { wf with history := wf.history ++ [s] }

def follow (w : WorkflowId) (s successor : StepId) (o : Outcome) : Act σ Unit := do
  let e ← get
  let wf := e.workflow w
  failIf (e.step successor).isCompleted
    (.successorCompleted (e.step successor).key (e.step s).key)
  bindStep successor wf.id wf.context
  updateWorkflow w ({ · with previous := some s, current := successor })
  note workflowLogger .debug "Workflow moved to next step"
    [("workflow_id", .int wf.id), ("from_step", .text (e.step s).key),
      ("to_step", .text (e.step successor).key), ("outcome", .text o.key)]

/-- What to do after a step has been run. -/
inductive Progress where
  | stop (state : WorkflowState)
  | goOn
  deriving Repr, DecidableEq

/-- Deals with a step that has not completed: a workflow waits for a decision and lets a task be run
again. -/
def pause (h : Hooks σ γ) (w : WorkflowId) (s : StepId) : Act σ Progress := do
  let st := (← get).step s
  if st.isDecision then
    moveWorkflow w .waiting
    emit h w (.waiting st.number)
    return .stop .waiting
  else return .stop .running

/-- Leaves a completed step behind: the workflow ends, or goes on to the step that follows. -/
def leave (h : Hooks σ γ) (w : WorkflowId) (s : StepId) : Act σ Progress := do
  record w s
  let st := (← get).step s
  let o := st.outcome
  if o.same .abort then
    finish h w .aborted (.aborted o.key)
    return .stop .aborted
  else
    match st.next? o with
    | none =>
      finish h w .completed (.completed o.key)
      return .stop .completed
    | some successor =>
      follow w s successor o
      return .goOn

/-- One turn of the traversal: runs the current step, if it is not completed, and deals with it. -/
def turn (h : Hooks σ γ) (w : WorkflowId) (context : γ) : Act σ Progress := do
  let s := ((← get).workflow w).current
  onlyIf (!((← get).step s).isCompleted) (runStep h w s context)
  if ((← get).step s).isCompleted then leave h w s else pause h w s

/-- Turns until one stops the traversal, at most `turns` of them. -/
def traverse (h : Hooks σ γ) (w : WorkflowId) (context : γ) : Nat → Act σ WorkflowState
  | 0 => throw .exhausted
  | turns + 1 => do
    match ← turn h w context with
    | .stop state => return state
    | .goOn => traverse h w context turns

/-- Traverses from the current step on. Every turn but the first completes a step, so one turn more than
there are steps is enough unless hooks add some. -/
def process (h : Hooks σ γ) (w : WorkflowId) (context : γ) : Act σ WorkflowState := do
  traverse h w context ((← get).steps.size + 1 + h.room)

/-- Drives a workflow as far as it goes. One that waits for a decision stays as it is. -/
def advance (h : Hooks σ γ) (w : WorkflowId) (context : γ) : Act σ WorkflowState := do
  let e ← get
  let wf := e.workflow w
  failIf wf.state.isTerminal (.workflowOver wf.id wf.state)
  match wf.state with
  | .waiting =>
    if (e.step wf.current).isCompleted then
      moveWorkflow w .running
      emit h w .running
      process h w context
    else return .waiting
  | .created =>
    moveWorkflow w .running
    let t ← readClock
    updateWorkflow w ({ · with startTime := t })
    emit h w .started
    process h w context
  | _ => process h w context

/-- Aborts a workflow. Its current step is aborted with it unless it is completed. -/
def abort (h : Hooks σ γ) (w : WorkflowId) : Act σ Unit := do
  let e ← get
  let wf := e.workflow w
  failIf wf.state.isTerminal (.workflowOver wf.id wf.state)
  let s := wf.current
  onlyIf (!(e.step s).isCompleted) (setOutcome s .abort)
  onlyIf (wf.history.getLast? != some s) (record w s)
  finish h w .aborted (.aborted Outcome.abort.key)

def attribute? (e : Engine σ) (w : WorkflowId) (name : String) : Option Value :=
  Entries.get? name (e.context (e.workflow w).context)

def setAttribute (w : WorkflowId) (name : String) (v : Value) : Act σ Unit := do
  updateContext ((← get).workflow w).context (Entries.put name v)

def currentActor (e : Engine σ) (w : WorkflowId) : Option Actor :=
  (e.workflow w).current?.bind fun s => (e.step s).actor

/-- The arguments for messages about a workflow: its owner, its current actor, and those added. -/
def messageArguments (e : Engine σ) (w : WorkflowId) : List Value :=
  let wf := e.workflow w
  .text (Workflow.nameOrDash wf.owner) :: .text (Workflow.nameOrDash (currentActor e w)) ::
    wf.arguments

def addMessageArgument (w : WorkflowId) (v : Value) : Act σ Unit :=
  if v.isMessageArgument then
    updateWorkflow w fun wf => { wf with arguments := wf.arguments ++ [v] }
  else throw (.messageArgument v.typeName)

end ApprovalFlow.Engine
