/-!
# Actors

Who is responsible for a step: a person, a group or the system. Actors are only compared and shown.
-/

namespace ApprovalFlow

/-- A person, a group or the system, known by name. -/
structure Actor where
  name : String
  deriving Repr, DecidableEq, Inhabited

namespace Actor

/-- The actor of the tasks that have no other. -/
def system : Actor := ⟨"system"⟩

def display : Option Actor → String
  | some a => a.name
  | none => "None"

end Actor

end ApprovalFlow
