/-!
# Lifecycles

The states of a step and of a workflow, and the moves that are allowed between them.
-/

namespace ApprovalFlow

inductive StepState where
  | created
  | started
  | completed
  deriving Repr, DecidableEq, Inhabited

namespace StepState

def name : StepState → String
  | created => "created"
  | started => "started"
  | completed => "completed"

/-- The moves of a step. It may complete without having been started, by an abort. -/
def allows : StepState → StepState → Bool
  | created, started => true
  | created, completed => true
  | started, completed => true
  | _, _ => false

theorem not_allows_of_completed (next : StepState) : completed.allows next = false := by
  cases next <;> rfl

end StepState

/-- The states of a workflow. A waiting workflow has a decision before an actor. -/
inductive WorkflowState where
  | created
  | running
  | waiting
  | completed
  | aborted
  deriving Repr, DecidableEq, Inhabited

namespace WorkflowState

def name : WorkflowState → String
  | created => "created"
  | running => "running"
  | waiting => "waiting"
  | completed => "completed"
  | aborted => "aborted"

def all : List WorkflowState := [created, running, waiting, completed, aborted]

def ofName? (s : String) : Option WorkflowState :=
  all.find? (fun w => w.name == s)

theorem ofName?_name (w : WorkflowState) : ofName? w.name = some w := by
  cases w <;> decide

def allows : WorkflowState → WorkflowState → Bool
  | created, running => true
  | created, aborted => true
  | running, waiting => true
  | running, completed => true
  | running, aborted => true
  | waiting, running => true
  | waiting, aborted => true
  | _, _ => false

def isTerminal : WorkflowState → Bool
  | completed => true
  | aborted => true
  | _ => false

theorem not_allows_of_isTerminal {w : WorkflowState} (h : w.isTerminal) (next : WorkflowState) :
    w.allows next = false := by
  cases w <;> cases next <;> simp_all [isTerminal, allows]

theorem live_of_allows {w next : WorkflowState} (h : w.allows next = true) : w.isTerminal = false := by
  rw [← Bool.not_eq_true]
  intro hw
  rw [not_allows_of_isTerminal hw] at h
  contradiction

end WorkflowState

end ApprovalFlow
