import ApprovalFlow.Engine.Traversal

/-!
# Managing workflows

A manager starts workflows under ids of its own or the ids they bring, and decides queued decisions: it
resolves the decision through its queue and then advances the decision's workflow.
-/

namespace ApprovalFlow.Engine

open Act (failIf)
open Logging (Level)

variable {σ γ : Type}

def addManager (settings : Settings) : Act σ ManagerId := do
  let queue ← addQueue
  modifyGet fun e =>
    (⟨e.managers.size⟩, { e with managers := e.managers.push { settings, queue } })

def takeId (m : ManagerId) : Act σ Nat := do
  let n := ((← get).manager m).nextId
  updateManager m ({ · with nextId := n + 1 })
  return n

/-- Gives a workflow an id of the manager's if it has none; the id it brings must not be in use. -/
def accept (m : ManagerId) (w : WorkflowId) : Act σ Unit := do
  let e ← get
  let id := (e.workflow w).id
  if id = 0 then
    let n ← takeId m
    assignId w n
  else failIf (Entries.contains (e.manager m).running id) (.idInUse id)

def register (m : ManagerId) (w : WorkflowId) : Act σ Unit := do
  let wf := (← get).workflow w
  updateManager m fun mg => { mg with running := Entries.put wf.id w mg.running }
  listenTo w (.manager m)
  note managerLogger .info "Workflow registered"
    [("workflow_id", .int wf.id), ("workflow", .text wf.key), ("owner", shownActor wf.owner)]

/-- Starts a workflow: accepts and registers it, and advances it for the first time. -/
def startManaged (h : Hooks σ γ) (m : ManagerId) (w : WorkflowId) (context : γ) :
    Act σ WorkflowState := do
  let wf := (← get).workflow w
  failIf (wf.state != .created) (.workflowStarted wf.id)
  accept m w
  register m w
  advance h w context

def running? (e : Engine σ) (m : ManagerId) (id : Int) : Option WorkflowId :=
  Entries.get? id (e.manager m).running

def decide (h : Hooks σ γ) (m : ManagerId) (s : StepId) (o : Outcome) (actor : Option Actor)
    (context : γ) : Act σ WorkflowState := do
  let e ← get
  let st := e.step s
  match running? e m (st.workflowId.getD 0) with
  | none => throw (.noRunningWorkflow (← numberOf s))
  | some w =>
    decideQueued h (e.manager m).queue s o actor
    advance h w context

/-- The running workflows of an owner, in order of registration. -/
def workflowsOf (e : Engine σ) (m : ManagerId) (owner : Option Actor) : List WorkflowId :=
  ((e.manager m).running.map (·.2)).filter fun w => (e.workflow w).owner = owner

end ApprovalFlow.Engine
