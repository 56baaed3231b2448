import ApprovalFlow.Workflow

/-!
# Commands

A scenario is a list of commands over things known by name. Each command is one use of the engine. What
steps and listeners do is scripted: a script is a list of calls, and a call is again a list of commands,
possibly with a failure to raise after them and an outcome to return.
-/

namespace ApprovalFlow.Scenario

inductive StepKind where
  | plain
  | task
  | decision
  | simple
  | notification
  deriving Repr, DecidableEq, Inhabited

inductive Raise where
  | failure (kind : FailureKind) (message : String)
  | notPermitted (actor expected : Option Actor)
  deriving Repr, DecidableEq, Inhabited

namespace Raise

def toFailure : Raise → Failure
  | failure kind message => .raised kind message
  | notPermitted actor expected =>
    .actorNotPermitted (Actor.display actor) (Actor.display expected)

end Raise

/-- A map of shared values: one known by its own name, or a workflow's. -/
inductive ContextRef where
  | named (name : String)
  | ofWorkflow (name : String)
  deriving Repr, DecidableEq, Inhabited

/-- A value in a command. It may name outcomes, which are those that the catalog holds when the command is
performed. -/
abbrev Draft := Catalog → Except Failure Value

/-- The scripts of a step, for each of its hooks: none at all, or a list of calls. -/
structure Scripts (call : Type) where
  execute : Option (List call) := none
  present : Option (List call) := none
  starting : Option (List call) := none
  deriving Inhabited

structure PlanRef where
  submitter : Option Actor
  key : String
  preparation : Option String
  decisionKey : String
  facts : List (String × Draft)
  completion : Option String
  rejectedKey : Option String
  deriving Inhabited

/-- A command whose scripts consist of calls of type `call`. -/
inductive Command (call : Type) where
  -- Steps
  | makeStep (name : String) (kind : StepKind) (key : String) (actor : Option Actor)
      (reassignable : Bool) (outcomes : List OutcomeRef) (scripts : Scripts call)
  | makeChain (stem : String) (length : Nat)
  | addSuccessor (step : String) (outcome : OutcomeRef) (target : Option String)
  | setSuccessor (step : String) (target : Option String)
  | getSuccessor (step : String) (outcome : OutcomeRef)
  | available (step : String)
  | permits (step : String) (outcome : OutcomeRef)
  | startStep (step : String)
  | execute (step : String) (context : Draft)
  | setOutcome (step : String) (outcome : OutcomeRef)
  | resolve (step : String) (outcome : OutcomeRef)
  | acknowledge (step : String)
  | reassign (step : String) (actor : Option Actor)
  | addError (step message : String)
  | addFact (step key : String) (value : Draft)
  | bind (step : String) (id : Int) (context : ContextRef)
  | sharedContext (step : String)
  | sameContext (step : String) (context : ContextRef)
  | setShared (step name : String) (value : Draft)
  | describe (name : String)
  | reachable (first : Option String)
  | define (key : String) (completion : Bool) (ok : Option Bool) (messageKey : Option String)
  -- Workflows
  | makeWorkflow (name key first : String) (owner : Option Actor) (id : Int)
      (context : List (String × Draft))
  | setId (workflow : String) (id : Int)
  | advance (workflow : String) (context : Draft)
  | abort (workflow : String)
  | getAttribute (workflow name : String) (fallback : Draft)
  | setAttribute (workflow name : String) (value : Draft)
  | addMessageArgument (workflow : String) (value : Draft)
  | record (workflow : String)
  | saveRecord (workflow name : String)
  | dumpRecord (name : String)
  | listen (name target : String) (on : List (String × List call))
  | relisten (target listener : String)
  | unlisten (workflow listener : String)
  -- Queues and managers
  | makeQueue (name : String)
  | enqueue (queue step : String)
  | dequeue (queue step : String)
  | isQueued (queue step : String)
  | queueLength (queue : String)
  | queued (queue : String)
  | queuedFor (queue : String) (actor : Option Actor)
  | findQueued (queue : String) (number : Int)
  | decideQueued (queue step : String) (outcome : OutcomeRef) (actor : Option Actor)
  | reassignQueued (queue step : String) (actor : Option Actor)
  | makeManager (name : String) (sources : Settings.Sources) (approvers : Option Draft)
  | approver (manager key : String)
  | start (manager workflow : String) (context : Draft)
  | decide (manager step : String) (outcome : OutcomeRef) (actor : Option Actor) (context : Draft)
  | getWorkflow (manager : String) (id : Int)
  | workflowsOf (manager : String) (owner : Option Actor)
  | build (manager name : String) (plan : PlanRef)
  deriving Inhabited

def Command.label {call : Type} : Command call → String
  | makeStep .. => "new"
  | makeChain .. => "chain"
  | addSuccessor .. => "succ"
  | setSuccessor .. => "set_successor"
  | getSuccessor .. => "get_successor"
  | available _ => "available"
  | permits .. => "permits"
  | startStep _ => "step_start"
  | execute .. => "execute"
  | setOutcome .. => "set_outcome"
  | resolve .. => "resolve"
  | acknowledge _ => "acknowledge"
  | reassign .. => "step_reassign"
  | addError .. => "add_error"
  | addFact .. => "add_fact"
  | bind .. => "bind"
  | sharedContext _ => "step_context"
  | sameContext .. => "same_context"
  | setShared .. => "ctx_set"
  | describe _ => "repr"
  | reachable _ => "reachable"
  | define .. => "define"
  | makeWorkflow .. => "workflow"
  | setId .. => "set_id"
  | advance .. => "advance"
  | abort _ => "abort"
  | getAttribute .. => "attr_get"
  | setAttribute .. => "attr_set"
  | addMessageArgument .. => "message_argument"
  | record _ => "record"
  | saveRecord .. => "record_save"
  | dumpRecord _ => "record_dump"
  | listen .. => "listen"
  | relisten .. => "relisten"
  | unlisten .. => "unlisten"
  | makeQueue _ => "queue"
  | enqueue .. => "q_add"
  | dequeue .. => "q_remove"
  | isQueued .. => "q_contains"
  | queueLength _ => "q_len"
  | queued _ => "q_list"
  | queuedFor .. => "q_actor"
  | findQueued .. => "q_get"
  | decideQueued .. => "q_decide"
  | reassignQueued .. => "q_reassign"
  | makeManager .. => "manager"
  | approver .. => "approver"
  | start .. => "start"
  | decide .. => "decide"
  | getWorkflow .. => "get_workflow"
  | workflowsOf .. => "owner_workflows"
  | build .. => "build"

/-- One call of a script. A failure of a command ends the call unless the command is `caught`. -/
inductive Call where
  | make (commands : List (Command Call × Bool)) (raises : Option Raise) (returns : Option OutcomeRef)
  deriving Inhabited

namespace Call

def commands : Call → List (Command Call × Bool)
  | make c _ _ => c

def raises : Call → Option Raise
  | make _ r _ => r

def returns : Call → Option OutcomeRef
  | make _ _ r => r

end Call

end ApprovalFlow.Scenario
