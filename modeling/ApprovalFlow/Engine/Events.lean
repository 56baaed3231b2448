import ApprovalFlow.Engine.Queues

/-!
# Telling listeners of a workflow

Listeners are told in the order in which they were added; those added or removed meanwhile do not count.
A manager listens to its workflows: it queues the decision that a workflow waits for, and when a workflow
is over it drops that workflow's decisions from its queue and files the workflow as finished.
-/

namespace ApprovalFlow.Engine

open Act (failIf onlyIf)
open Logging (Level)

variable {σ γ : Type}

def managerLogger : String := "step_workflow.workflow.manager"

def onWaiting (h : Hooks σ γ) (m : ManagerId) (w : WorkflowId) : Act σ Unit := do
  let e ← get
  match (e.workflow w).current? with
  | some s => onlyIf (e.step s).isDecision (enqueue h (e.manager m).queue s)
  | none => return

/-- Takes a decision out of the queue if it belongs to the workflow. -/
def dropIfOf (h : Hooks σ γ) (q : QueueId) (w : WorkflowId) (s : StepId) : Act σ Unit := do
  let e ← get
  onlyIf ((e.step s).workflowId == some (e.workflow w).id) (dequeue h q s)

def finishManaged (m : ManagerId) (w : WorkflowId) : Act σ Unit := do
  let e ← get
  let wf := e.workflow w
  failIf (!Entries.contains (e.manager m).running wf.id) (.unregistered wf.id)
  updateManager m fun mg =>
    { mg with running := Entries.erase wf.id mg.running, finished := mg.finished ++ [w] }
  note managerLogger .info "Workflow finished"
    [("workflow_id", .int wf.id), ("state", .text wf.state.name)]

/-- Drops a workflow's decisions from the queue and files it as finished. -/
def onFinished (h : Hooks σ γ) (m : ManagerId) (w : WorkflowId) : Act σ Unit := do
  let e ← get
  let q := (e.manager m).queue
  (e.queue q).decisions.forM (dropIfOf h q w)
  finishManaged m w

/-- How a manager takes an event: by the workflow that is registered under the event's id. -/
def manage (h : Hooks σ γ) (m : ManagerId) (event : Event) : Act σ Unit := do
  match Entries.get? event.workflowId ((← get).manager m).running with
  | none => return
  | some w =>
    match event.kind with
    | .waiting _ => onWaiting h m w
    | .completed _ => onFinished h m w
    | .aborted _ => onFinished h m w
    | _ => return

def tell (h : Hooks σ γ) (event : Event) : Listener → Act σ Unit
  | .manager m => manage h m event
  | .observer l => h.observe l event

def emit (h : Hooks σ γ) (w : WorkflowId) (kind : EventKind) : Act σ Unit := do
  let wf := (← get).workflow w
  wf.listeners.forM (tell h ⟨wf.id, kind⟩)

def listenTo (w : WorkflowId) (l : Listener) : Act σ Unit :=
  updateWorkflow w fun wf => { wf with listeners := wf.listeners ++ [l] }

/-- Removes the first occurrence of a listener from a workflow. -/
def unlisten (w : WorkflowId) (l : Listener) : Act σ Unit := do
  failIf (!((← get).workflow w).listeners.contains l) .notListening
  updateWorkflow w fun wf => { wf with listeners := wf.listeners.erase l }

end ApprovalFlow.Engine
