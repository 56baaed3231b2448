import ApprovalFlow.Entries
import ApprovalFlow.Value

/-!
# Events

What a workflow or a decision queue tells its listeners.
-/

namespace ApprovalFlow

inductive EventKind where
  | started
  | running
  | waiting (decision : Nat)
  | completed (outcome : String)
  | aborted (outcome : String)
  | queued (decision : Nat)
  | dequeued (decision : Nat)
  | reassigned (decision : Nat) (fromActor toActor : String)
  deriving Repr, DecidableEq, Inhabited

namespace EventKind

def name : EventKind → String
  | started => "started"
  | running => "running"
  | waiting _ => "waiting"
  | completed _ => "completed"
  | aborted _ => "aborted"
  | queued _ => "dq_addition"
  | dequeued _ => "dq_removal"
  | reassigned .. => "dq_reassign"

def payload : EventKind → Entries String Value
  | started => []
  | running => []
  | waiting n => [("decision_id", .int n)]
  | completed o => [("outcome", .text o)]
  | aborted o => [("outcome", .text o)]
  | queued n => [("decision_id", .int n)]
  | dequeued n => [("decision_id", .int n)]
  | reassigned n a b =>
    [("decision_id", .int n), ("from_actor", .text a), ("to_actor", .text b)]

end EventKind

structure Event where
  workflowId : Int
  kind : EventKind
  deriving Repr, DecidableEq, Inhabited

structure ListenerId where
  index : Nat
  deriving Repr, DecidableEq, Inhabited

structure ManagerId where
  index : Nat
  deriving Repr, DecidableEq, Inhabited

/-- What listens to a workflow: a manager, or something from outside. -/
inductive Listener where
  | manager (m : ManagerId)
  | observer (l : ListenerId)
  deriving Repr, DecidableEq, Inhabited

end ApprovalFlow
