import ApprovalFlow.Engine.Management

/-!
# Approval workflows

The common shape: prepare, have it approved, complete. The approver is the one that the manager's
settings name for the workflow's key; without one the decision is left out.
-/

namespace ApprovalFlow.Engine

open Logging (Level)

variable {σ : Type}

def builderLogger : String := "step_workflow.workflow.builder"

/-- What an approval workflow is made from. -/
structure ApprovalPlan where
  submitter : Option Actor
  key : String
  preparation : Option StepId
  decisionKey : String
  facts : List Fact := []
  completion : Option StepId
  /-- The key of the notification that the submitter gets when approval is denied. -/
  rejectedKey : Option String := none
  deriving Repr, BEq

/-- Makes the decision of a plan: approval leads to completion, denial to a notification if there is
one. -/
def addApproval (plan : ApprovalPlan) (approver : Actor) : Act σ StepId := do
  let s ← addSimpleDecision "SimpleDecision" plan.decisionKey (some approver) true
  plan.facts.forM (addFact s)
  addSuccessor s .approve plan.completion
  match plan.rejectedKey with
  | some key =>
    let n ← addNotification "SimpleNotification" key plan.submitter
    addSuccessor s .deny (some n)
  | none => pure ()
  return s

/-- The first step of a plan whose decision is `decision?`. A preparation goes on to the decision, or
without one straight to completion. -/
def connect (plan : ApprovalPlan) (decision? : Option StepId) : Act σ StepId := do
  let second := decision?.or plan.completion
  match plan.preparation, plan.completion with
  | some prep, _ =>
    setSuccessor prep second
    return prep
  | none, some completion => return second.getD completion
  | none, none => throw .nothingToDo

def addApprovalWorkflow (m : ManagerId) (plan : ApprovalPlan) : Act σ WorkflowId := do
  let approver := ((← get).manager m).settings.approver? plan.key
  let decision? ← match approver with
    | some a => some <$> addApproval plan a
    | none => pure none
  let first ← connect plan decision?
  note builderLogger .debug "Built approval workflow"
    [("workflow", .text plan.key),
      ("approver", match approver with
        | some a => .text a.name
        | none => .null)]
  addWorkflow plan.key first plan.submitter 0 []

end ApprovalFlow.Engine
