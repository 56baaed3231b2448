import ApprovalFlow.Engine.Hooks

/-!
# Operations on steps

Starting a step, giving it an outcome, binding it to a workflow; and for decisions, putting them to their
actor, resolving and reassigning them. A completing outcome completes its step, once and for all. What only
tasks, decisions or notifications can do fails for other steps.
-/

namespace ApprovalFlow.Engine

open Act (failIf onlyIf)
open Logging (Level)

variable {σ γ : Type}

def shownActor (a : Option Actor) : Value := .text (Actor.display a)

def shownId (id : Option Int) : Value :=
  match id with
  | some n => .int n
  | none => .null

def stepLogger : String := "step_workflow.workflow.step"

def decisionLogger : String := "step_workflow.workflow.decision"

def moveStep (s : StepId) (next : StepState) : Act σ Unit := do
  let st := (← get).step s
  failIf (!st.state.allows next) (.stepMove st.state next st.key)
  updateStep s ({ · with state := next })

def startStep (s : StepId) : Act σ Unit := do
  let st := (← get).step s
  failIf st.isStarted (.stepStarted st.key)
  moveStep s .started
  let t ← readClock
  updateStep s ({ · with startTime := t })
  note stepLogger .debug "Step started"
    [("step", .text st.key), ("workflow_id", shownId st.workflowId)]

/-- Starts a step as its kind asks: the hook first; a decision needs an actor. -/
def start (h : Hooks σ γ) (s : StepId) : Act σ Unit := do
  h.starting s
  let st := (← get).step s
  failIf (st.isDecision && st.actor.isNone) (.noActor st.key)
  startStep s

def addSuccessor (s : StepId) (o : Outcome) (target : Option StepId) : Act σ Unit :=
  updateStep s (·.withSuccessor o target)

def setSuccessor (s : StepId) (target : Option StepId) : Act σ Unit := do
  let st := (← get).step s
  failIf (!st.isTask) (.lacking st.kind "set_successor")
  addSuccessor s .complete target

def completeStep (s : StepId) : Act σ Unit := do
  moveStep s .completed
  let t ← readClock
  updateStep s ({ · with endTime := t })

/-- Gives a step an outcome. A completing one completes the step. -/
def setOutcome (s : StepId) (o : Outcome) : Act σ Unit := do
  let st := (← get).step s
  failIf st.isCompleted (.stepCompleted st.key st.outcome.key)
  failIf (!st.permits o) (.outcomeUnavailable o.key st.key)
  onlyIf o.completion (completeStep s)
  updateStep s ({ · with outcome := o })
  note stepLogger .debug "Step outcome set"
    [("step", .text st.key), ("workflow_id", shownId st.workflowId), ("outcome", .text o.key),
      ("completed", .bool o.completion)]

def addError (s : StepId) (message : String) : Act σ Unit :=
  updateStep s fun st => { st with errors := st.errors ++ [message] }

def contextOf (s : StepId) : Act σ ContextId := do
  let st := (← get).step s
  match st.context with
  | some c => return c
  | none => throw (.unattached st.key)

def setShared (s : StepId) (name : String) (v : Value) : Act σ Unit := do
  let c ← contextOf s
  updateContext c (Entries.put name v)

/-- Binds a step to a workflow's id and context. A started step keeps the context it has. -/
def bindStep (s : StepId) (id : Int) (c : ContextId) : Act σ Unit := do
  let st := (← get).step s
  failIf (st.isStarted && st.context.any (· != c)) (.boundElsewhere st.key)
  updateStep s ({ · with workflowId := some id, context := some c })

def addTask (kind key : String) (actor : Option Actor) : Act σ StepId :=
  addStep (.task kind key actor)

def addDecision (kind key : String) (actor : Option Actor) (outcomes : List Outcome)
    (reassignable : Bool) : Act σ StepId := do
  let number ← takeNumber
  addStep (.ofDecision kind key actor number outcomes reassignable)

/-- Makes a decision to approve or to deny. -/
def addSimpleDecision (kind key : String) (actor : Option Actor) (reassignable : Bool) :
    Act σ StepId :=
  addDecision kind key actor [.approve, .deny] reassignable

/-- Makes a notification, which can only be acknowledged. -/
def addNotification (kind key : String) (actor : Option Actor) : Act σ StepId := do
  let number ← takeNumber
  addStep (.notification kind key actor number)

def addFact (s : StepId) (f : Fact) : Act σ Unit := do
  let st := (← get).step s
  failIf (!st.isDecision) (.lacking st.kind "add_fact")
  updateStep s fun st =>
    { st with decision := st.decision.map fun d => { d with facts := d.facts ++ [f] } }

def presentDecision (h : Hooks σ γ) (s : StepId) (context : γ) : Act σ Unit := do
  h.present s context
  updateStep s fun st =>
    { st with decision := st.decision.map fun d => { d with begun := true } }
  let st := (← get).step s
  note decisionLogger .info "Decision awaiting actor"
    [("decision_id", .int st.number), ("workflow_id", shownId st.workflowId),
      ("actor", shownActor st.actor)]

/-- Executes a step. A decision is put to its actor and always goes on. -/
def execute (h : Hooks σ γ) (s : StepId) (context : γ) : Act σ Outcome := do
  if ((← get).step s).isDecision then
    presentDecision h s context
    return .proceed
  else h.execute s context

/-- Gives a decision its outcome: one of its own choices, or an abort. -/
def resolve (s : StepId) (o : Outcome) : Act σ Unit := do
  let st := (← get).step s
  failIf (!st.isDecision) (.lacking st.kind "resolve")
  failIf (!st.offers o && !o.same .abort) (.notAChoice o.key st.key)
  setOutcome s o
  note decisionLogger .info "Decision resolved"
    [("decision_id", .int st.number), ("workflow_id", shownId st.workflowId),
      ("outcome", .text o.key)]

def acknowledge (s : StepId) : Act σ Unit := do
  let st := (← get).step s
  failIf (!st.isNotification) (.lacking st.kind "acknowledge")
  resolve s .acknowledge

def reassign (s : StepId) (actor : Option Actor) : Act σ Unit := do
  let st := (← get).step s
  failIf (!st.isDecision) (.lacking st.kind "reassign")
  failIf (!st.isReassignable) (.notReassignable st.key)
  failIf st.isCompleted (.decisionCompleted st.key)
  note decisionLogger .info "Decision reassigned"
    [("decision_id", .int st.number), ("from_actor", shownActor st.actor),
      ("to_actor", shownActor actor)]
  updateStep s ({ · with actor })

end ApprovalFlow.Engine
