import ApprovalFlow.Failure

/-!
# Outcomes

Outcomes label the edges of a workflow's graph. Two outcomes with the same key stand for each other,
whatever their other fields. The catalog holds the outcomes that are known by key: it only grows, and
a key keeps its first definition.
-/

namespace ApprovalFlow

/-- What a step may result in. A completing outcome ends its step; an `ok` one ends it well. -/
structure Outcome where
  key : String
  messageKey : String
  completion : Bool
  ok : Bool
  deriving Repr, DecidableEq, Inhabited

namespace Outcome

/-- Whether two outcomes stand for each other. -/
def same (a b : Outcome) : Bool := a.key == b.key

theorem same_iff {a b : Outcome} : a.same b ↔ a.key = b.key := by
  simp [same]

/-- An outcome with the given fields; an empty message key stands for the key itself. -/
def make (key : String) (messageKey : String) (completion ok : Bool) : Except Failure Outcome :=
  if key = "" then .error .emptyOutcomeKey
  else if ok && !completion then .error (.okWithoutCompletion key)
  else .ok ⟨key, if messageKey = "" then key else messageKey, completion, ok⟩

private def builtIn (key : String) (completion ok : Bool) : Outcome :=
  ⟨key, key, completion, ok⟩

def complete : Outcome := builtIn "outcome.step.complete" true true
def abort : Outcome := builtIn "outcome.step.abort" true false
def proceed : Outcome := builtIn "outcome.step.continue" false false
def approve : Outcome := builtIn "outcome.decision.approve" true true
def deny : Outcome := builtIn "outcome.decision.deny" true true
def hold : Outcome := builtIn "outcome.decision.hold" false false
def reassign : Outcome := builtIn "outcome.decision.reassign" false false
def acknowledge : Outcome := builtIn "outcome.decision.acknowledge" true true

end Outcome

structure Catalog where
  outcomes : List Outcome
  deriving Repr, DecidableEq

namespace Catalog

open Outcome in
def builtIn : Catalog :=
  ⟨[complete, abort, proceed, approve, deny, hold, reassign, acknowledge]⟩

instance : Inhabited Catalog := ⟨builtIn⟩

def find? (c : Catalog) (key : String) : Option Outcome :=
  c.outcomes.find? (fun o => o.key == key)

def lookup (c : Catalog) (key : String) : Except Failure Outcome :=
  match c.find? key with
  | some o => .ok o
  | none => .error (.unknownOutcome key)

/-- Defines an outcome and gives the catalog's own. A completing outcome is ok unless it says
otherwise. A known key is refused unless its definition is the same. -/
def define (c : Catalog) (key : String) (completion : Bool) (ok : Option Bool)
    (messageKey : Option String) : Except Failure (Catalog × Outcome) := do
  let o ← Outcome.make key (messageKey.getD "") completion (ok.getD completion)
  match c.find? key with
  | none => .ok (⟨c.outcomes ++ [o]⟩, o)
  | some known => if known = o then .ok (c, known) else .error (.outcomeRedefined key)

theorem find?_append (c : Catalog) (o : Outcome) (key : String) :
    Catalog.find? ⟨c.outcomes ++ [o]⟩ key =
      (c.find? key).or (if o.key = key then some o else none) := by
  by_cases h : o.key = key <;> simp [find?, List.find?_append, h]

end Catalog

/-- How an outcome is named: by a key of the catalog, or by all its fields. -/
inductive OutcomeRef where
  | known (key : String)
  | fresh (key messageKey : String) (completion ok : Bool)
  deriving Repr, DecidableEq, Inhabited

namespace OutcomeRef

def resolve (c : Catalog) : OutcomeRef → Except Failure Outcome
  | known key => c.lookup key
  | fresh key messageKey completion ok => Outcome.make key messageKey completion ok

/-- Whether two names lead to the one entry of the catalog. A freshly made outcome is no entry. -/
def oneEntry : OutcomeRef → OutcomeRef → Bool
  | known a, known b => a == b
  | _, _ => false

end OutcomeRef

end ApprovalFlow
