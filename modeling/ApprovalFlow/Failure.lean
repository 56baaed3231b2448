import ApprovalFlow.Lifecycle
import ApprovalFlow.Settings.Problem
import ApprovalFlow.Text.Quoted

/-!
# Failures

Why an operation of the engine fails. Most failures are breaches of contract: the operation is not
allowed in the present state, or an argument does not suit its target. Only failures of business are
expected; they are noted on the step that failed and the step may be tried again.
-/

namespace ApprovalFlow

/-- The kinds of failure that callers tell apart. -/
inductive FailureKind where
  | illegalState
  | illegalArgument
  | business
  | notPermitted
  | badValue
  | runtime
  | missingKey
  | wrongType
  | missingMember
  | outOfBounds
  | overflow
  | memory
  | system
  | invalidSettings
  | unreadableSettings
  | unknownEncoding
  | badEncoding
  | badBytes
  | unwritable
  | exhausted
  deriving Repr, DecidableEq, Inhabited

namespace FailureKind

def label : FailureKind → String
  | illegalState => "IllegalStateError"
  | illegalArgument => "IllegalArgumentError"
  | business => "WorkflowError"
  | notPermitted => "ActorNotPermittedError"
  | badValue => "ValueError"
  | runtime => "RuntimeError"
  | missingKey => "KeyError"
  | wrongType => "TypeError"
  | missingMember => "AttributeError"
  | outOfBounds => "IndexError"
  | overflow => "OverflowError"
  | memory => "MemoryError"
  | system => "OSError"
  | invalidSettings => "ValidationError"
  | unreadableSettings => "SettingsError"
  | unknownEncoding => "LookupError"
  | badEncoding => "UnicodeError"
  | badBytes => "UnicodeDecodeError"
  | unwritable => "PydanticSerializationError"
  | exhausted => "RecursionError"

/-- The name with the module that defines it, for the engine's own kinds. -/
def qualifiedLabel : FailureKind → String
  | illegalState => "step_workflow.workflow.errors.IllegalStateError"
  | illegalArgument => "step_workflow.workflow.errors.IllegalArgumentError"
  | business => "step_workflow.workflow.errors.WorkflowError"
  | notPermitted => "step_workflow.workflow.errors.ActorNotPermittedError"
  | kind => kind.label

end FailureKind

def Settings.Problem.kind : Settings.Problem → FailureKind
  | noLength _ | notANumber _ | notWhole _ | delimiterNotText _ | encodingNotText _ | notFiles _
  | notAPath _ => .wrongType
  | unnamed _ | notADirectory | unreadable _ => .unreadableSettings
  | unknownEncoding _ => .unknownEncoding
  | unknownHome => .runtime
  | undecodable (.badByte ..) => .badBytes
  | undecodable .unmarked => .badEncoding
  | tooDeep => .exhausted
  | invalid _ => .invalidSettings

/-- Why an operation failed. Steps are named by their message keys. -/
inductive Failure where
  -- The state forbids it.
  | stepCompleted (step outcome : String)
  | stepStarted (step : String)
  | stepMove (current next : StepState) (step : String)
  | unattached (step : String)
  | boundElsewhere (step : String)
  | notReassignable (step : String)
  | decisionCompleted (step : String)
  | workflowMove (current next : WorkflowState)
  | fixedId (state : WorkflowState)
  | workflowOver (id : Int) (state : WorkflowState)
  | workflowStarted (id : Int)
  | successorCompleted (successor step : String)
  | noRunningWorkflow (decision : Nat)
  | notQueued (decision : Nat)
  -- The argument does not suit its target.
  | emptyOutcomeKey
  | okWithoutCompletion (outcome : String)
  | outcomeRedefined (outcome : String)
  | unknownOutcome (outcome : String)
  | outcomeUnavailable (outcome step : String)
  | notAChoice (outcome step : String)
  | messageArgument (typeName : String)
  | idInUse (id : Int)
  /-- A thing is not of the kind of which something is asked. -/
  | lacking (kind member : String)
  -- Business.
  | noActor (step : String)
  | actorNotPermitted (actor expected : String)
  -- Values and look-ups.
  | unknownState (text : String)
  | nothingToDo
  | notListening
  | unregistered (id : Int)
  | unreachableStep
  | unwritableValue
  | valueTooDeep
  | misconfigured (problem : Settings.Problem)
  /-- Raised by a hook or a listener. -/
  | raised (kind : FailureKind) (message : String)
  /-- Hooks have called the engine from within each other too often. -/
  | exhausted
  deriving Repr, DecidableEq, Inhabited

namespace Failure

def kind : Failure → FailureKind
  | stepCompleted .. | stepStarted _ | stepMove .. | unattached _ | boundElsewhere _
  | notReassignable _ | decisionCompleted _ | workflowMove .. | fixedId _ | workflowOver ..
  | workflowStarted _ | successorCompleted .. | noRunningWorkflow _ | notQueued _ => .illegalState
  | emptyOutcomeKey | okWithoutCompletion _ | outcomeRedefined _ | unknownOutcome _
  | outcomeUnavailable .. | notAChoice .. | messageArgument _ | idInUse _ => .illegalArgument
  | lacking .. => .missingMember
  | noActor _ => .business
  | actorNotPermitted .. => .notPermitted
  | unknownState _ | nothingToDo | notListening | valueTooDeep => .badValue
  | unregistered _ | unreachableStep => .missingKey
  | unwritableValue => .unwritable
  | misconfigured problem => problem.kind
  | raised kind _ => kind
  | exhausted => .exhausted

/-- What is said about a failure. A failed look-up says nothing. -/
def message : Failure → Option String
  | stepCompleted step outcome => some s!"Step {step} already completed with {outcome}"
  | stepStarted step => some s!"Step already started: {step}"
  | stepMove current next step =>
    some s!"Illegal step transition: {current.name} -> {next.name} ({step})"
  | unattached step => some s!"Step {step} is not attached to a workflow"
  | boundElsewhere step => some s!"Cannot rebind started step {step}"
  | notReassignable step => some s!"Decision {step} cannot be reassigned"
  | decisionCompleted step => some s!"Decision {step} is already completed"
  | workflowMove current next => some s!"Illegal transition: {current.name} -> {next.name}"
  | fixedId state => some s!"Cannot change the id of {state.name} workflow"
  | workflowOver id state => some s!"Workflow {id} is already {state.name}"
  | workflowStarted id => some s!"Workflow {id} was already started"
  | successorCompleted successor step =>
    some s!"Successor {successor} of {step} already completed"
  | noRunningWorkflow decision => some s!"Decision {decision} has no running workflow"
  | notQueued decision => some s!"Decision {decision} is not queued"
  | emptyOutcomeKey => some "Outcome key must not be empty"
  | okWithoutCompletion outcome => some s!"Outcome {outcome} cannot be ok without completing"
  | outcomeRedefined outcome => some s!"Outcome {outcome} is already defined differently"
  | unknownOutcome outcome => some s!"Unknown outcome: {outcome}"
  | outcomeUnavailable outcome step => some s!"Outcome {outcome} is not available for step {step}"
  | notAChoice outcome step => some s!"Outcome {outcome} is not a choice for decision {step}"
  | messageArgument typeName =>
    some s!"Message arguments must be str, int, float or datetime, got {typeName}"
  | idInUse id => some s!"Workflow id {id} is already in use"
  | lacking kind member => some s!"'{kind}' object has no attribute '{member}'"
  | noActor step => some s!"No actor assigned to decision {step}"
  | actorNotPermitted actor expected =>
    some s!"Actor {actor} may not decide a step assigned to {expected}"
  | unknownState text => some s!"{Text.quoted text} is not a valid WorkflowState"
  | nothingToDo => some "An approval workflow needs a prep task or a completion task"
  | notListening => some "list.remove(x): x not in list"
  | unregistered _ => none
  | unreachableStep => none
  | unwritableValue => some "Unable to serialize unknown type: <class 'object'>"
  | valueTooDeep => some "Maximum serialization depth exceeded"
  | misconfigured problem => problem.message
  | raised _ text => some text
  | exhausted => some "Hooks are nested too deeply"

/-- The text of a failure of business; other failures are not the step's own. -/
def businessText? (f : Failure) : Option String :=
  match f.kind with
  | .business => f.message
  | .notPermitted => f.message
  | _ => none

end Failure

end ApprovalFlow
