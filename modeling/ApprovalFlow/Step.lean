import ApprovalFlow.Entries
import ApprovalFlow.Value

/-!
# Steps

A step is a piece of a workflow's work: a task, which completes when it is executed, or a decision,
which waits for an actor's choice. Its successors say which step follows which outcome. They are kept
in the order in which outcomes were first registered, each under the outcome first registered for its
key and with the step last registered for it.
-/

namespace ApprovalFlow

/-- A step, by its place among the engine's steps. -/
structure StepId where
  index : Nat
  deriving Repr, DecidableEq, Inhabited

/-- A map of named values shared by the steps of a workflow, by its place. -/
structure ContextId where
  index : Nat
  deriving Repr, DecidableEq, Inhabited

abbrev Context := Entries String Value

/-- What follows an outcome: a step, or the end of the workflow. -/
structure Successor where
  outcome : Outcome
  target : Option StepId
  deriving Repr, DecidableEq, Inhabited

structure Decision where
  number : Nat
  reassignable : Bool
  facts : List Fact := []
  begun : Bool := false
  /-- Whether it only tells its actor something and is acknowledged. -/
  isNotification : Bool := false
  deriving Repr, BEq, Inhabited

/-- A step. `kind` names the kind of step it was made as. -/
structure Step where
  kind : String
  key : String
  isTask : Bool := false
  actor : Option Actor := none
  state : StepState := .created
  outcome : Outcome := .proceed
  errors : List String := []
  successors : List Successor := []
  startTime : Instant := Instant.unset
  endTime : Instant := Instant.unset
  workflowId : Option Int := none
  context : Option ContextId := none
  decision : Option Decision := none
  deriving Repr, BEq, Inhabited

namespace Successor

def find? (o : Outcome) : List Successor → Option Successor
  | [] => none
  | s :: rest => if s.outcome.same o then some s else find? o rest

/-- Registers what follows an outcome. A key that is registered keeps its place and its outcome. -/
def register (o : Outcome) (target : Option StepId) : List Successor → List Successor
  | [] => [⟨o, target⟩]
  | s :: rest =>
    if s.outcome.same o then { s with target } :: rest else s :: register o target rest

theorem find?_register (l : List Successor) (o p : Outcome) (target : Option StepId) :
    (find? p (register o target l)).map (·.target) =
      if o.same p then some target else (find? p l).map (·.target) := by
  induction l with
  | nil => by_cases h : o.same p <;> simp [register, find?, h]
  | cons s rest ih =>
    by_cases hs : s.outcome.same o
    · by_cases hp : o.same p
      · have : s.outcome.same p := by
          rw [Outcome.same_iff] at hs hp ⊢; exact hs.trans hp
        simp [register, find?, hs, hp, this]
      · have : ¬ s.outcome.same p := by
          rw [Outcome.same_iff] at hs hp ⊢; exact fun h => hp (hs.symm.trans h)
        simp [register, find?, hs, hp, this]
    · by_cases hp : s.outcome.same p
      · have : ¬ o.same p := by
          rw [Outcome.same_iff] at hs hp ⊢; exact fun h => hs (hp.trans h.symm)
        simp [register, find?, hs, hp, this]
      · simpa [register, find?, hs, hp] using ih

end Successor

namespace Step

/-- Whether the step has a start time. A start at the unset instant does not show. -/
def isStarted (s : Step) : Bool := s.startTime != Instant.unset

def isCompleted (s : Step) : Bool := s.state == .completed

/-- Whether the step waits for an actor's choice. -/
def isDecision (s : Step) : Bool := s.decision.isSome

/-- Whether the step only tells its actor something. -/
def isNotification (s : Step) : Bool := s.decision.any (·.isNotification)

/-- Whether the decision has been put to its actor and not been answered. -/
def isPending (s : Step) : Bool :=
  match s.decision with
  | some d => d.begun && !s.isCompleted
  | none => false

def number (s : Step) : Nat := (s.decision.map (·.number)).getD 0

def isReassignable (s : Step) : Bool := (s.decision.map (·.reassignable)).getD false

def facts (s : Step) : List Fact := (s.decision.map (·.facts)).getD []

def available (s : Step) : List Outcome := s.successors.map (·.outcome)

def offers (s : Step) (o : Outcome) : Bool := (Successor.find? o s.successors).isSome

def next? (s : Step) (o : Outcome) : Option StepId :=
  (Successor.find? o s.successors).bind (·.target)

/-- Whether the step may have this outcome: it is registered, or means to go on or to abort. -/
def permits (s : Step) (o : Outcome) : Bool :=
  s.offers o || o.same .proceed || o.same .abort

def withSuccessor (s : Step) (o : Outcome) (target : Option StepId) : Step :=
  { s with successors := Successor.register o target s.successors }

/-- The step with outcomes after which the workflow ends. -/
def withOutcomes (s : Step) (outcomes : List Outcome) : Step :=
  outcomes.foldl (fun s o => s.withSuccessor o none) s

def describe (s : Step) : String :=
  s.kind ++ "(" ++ Text.quoted s.key ++ ", state=" ++ s.state.name ++ ")"

/-- A task: performed by the system unless it has an actor, and ending its workflow when it completes
unless a successor is set. -/
def task (kind key : String) (actor : Option Actor) : Step :=
  { kind, key, isTask := true, actor := some (actor.getD .system) : Step }.withOutcomes [.complete]

/-- A decision with its choices. One that may be reassigned offers that as its last choice. -/
def ofDecision (kind key : String) (actor : Option Actor) (number : Nat) (outcomes : List Outcome)
    (reassignable : Bool) : Step :=
  { kind, key, actor, decision := some { number, reassignable } : Step }.withOutcomes
    (outcomes ++ if reassignable then [.reassign] else [])

/-- A notification: a decision whose only choice is to acknowledge it. -/
def notification (kind key : String) (actor : Option Actor) (number : Nat) : Step :=
  let s := ofDecision kind key actor number [.acknowledge] false
  { s with decision := s.decision.map ({ · with isNotification := true }) }

end Step

end ApprovalFlow
