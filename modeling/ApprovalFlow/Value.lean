import ApprovalFlow.Actor
import ApprovalFlow.Calendar
import ApprovalFlow.Number.Decimal
import ApprovalFlow.Outcome
import ApprovalFlow.Text.Uppercase

/-!
# Values

What contexts, facts, message arguments and log lines may hold: the values of a JSON document, and the
engine's own kinds of thing. `display` is how a value is shown on its own, `literal` how it is shown
inside a collection, where texts are quoted.
-/

namespace ApprovalFlow

/-- A value. Objects keep their fields in the order in which they were first given. -/
inductive Value where
  | null
  | bool (b : Bool)
  | int (n : Int)
  | float (x : Decimal)
  | text (s : String)
  | list (items : List Value)
  | tuple (items : List Value)
  | object (fields : List (String × Value))
  /-- A point in time, either universal or of no stated zone. -/
  | moment (t : Instant) (universal : Bool)
  | actor (a : Actor)
  | outcome (o : Outcome)
  | fact (key : String) (value : Value)
  | state (w : WorkflowState)
  /-- A thing of which nothing is known. -/
  | thing
  deriving Repr, BEq, Inhabited

namespace Value

def typeName : Value → String
  | null => "NoneType"
  | bool _ => "bool"
  | int _ => "int"
  | float _ => "float"
  | text _ => "str"
  | list _ => "list"
  | tuple _ => "tuple"
  | object _ => "dict"
  | moment .. => "datetime"
  | actor _ => "Actor"
  | outcome _ => "Outcome"
  | fact .. => "Fact"
  | state _ => "WorkflowState"
  | thing => "object"

/-- The name of a value's type with the module that defines it, where messages show that. -/
def fullTypeName : Value → String
  | moment .. => "datetime.datetime"
  | v => v.typeName

/-- Whether a value counts as no choice at all: nothing, false, zero, and what has no contents. -/
def isNothing : Value → Bool
  | null => true
  | bool b => !b
  | int n => n == 0
  | float (.finite _ n _ _) => n == 0
  | text s => s.isEmpty
  | list items => items.isEmpty
  | tuple items => items.isEmpty
  | object fields => fields.isEmpty
  | _ => false

def boolText (b : Bool) : String := if b then "True" else "False"

def momentText (t : Instant) (universal : Bool) : String :=
  t.stamp ' ' ++ (if universal then "+00:00" else "")

/-- A point in time as the call that makes it: seconds and their fraction only where they count. -/
def momentLiteral (t : Instant) (universal : Bool) : String :=
  let (year, month, day) := Instant.civil t.day
  let seconds := t.microsOfDay / 1000000
  let fraction := t.microsOfDay % 1000000
  let small := [seconds % 60, fraction]
  let small := if fraction = 0 then (if seconds % 60 = 0 then [] else small.take 1) else small
  let fields := [year.toNat, month, day, seconds / 3600, seconds / 60 % 60] ++ small
  let zone := if universal then ", tzinfo=datetime.timezone.utc" else ""
  "datetime.datetime(" ++ String.intercalate ", " (fields.map toString) ++ zone ++ ")"

def outcomeLiteral (o : Outcome) : String :=
  "Outcome(key=" ++ Text.quoted o.key ++ ", message_key=" ++ Text.quoted o.messageKey ++
    ", completion=" ++ boolText o.completion ++ ", ok=" ++ boolText o.ok ++ ")"

mutual

def literal : Value → String
  | null => "None"
  | bool b => boolText b
  | int n => toString n
  | float x => x.toText
  | text s => Text.quoted s
  | list items => "[" ++ String.intercalate ", " (literals items) ++ "]"
  | tuple items =>
    match literals items with
    | [one] => "(" ++ one ++ ",)"
    | several => "(" ++ String.intercalate ", " several ++ ")"
  | object fields => "\x7b" ++ String.intercalate ", " (fieldLiterals fields) ++ "\x7d"
  | moment t universal => momentLiteral t universal
  | actor a => "Actor(name=" ++ Text.quoted a.name ++ ")"
  | outcome o => outcomeLiteral o
  | fact key value => "Fact(message_key=" ++ Text.quoted key ++ ", value=" ++ literal value ++ ")"
  | state w => "<WorkflowState." ++ Text.upper w.name ++ ": " ++ Text.quoted w.name ++ ">"
  | thing => "<object object>"

def literals : List Value → List String
  | [] => []
  | v :: rest => literal v :: literals rest

def fieldLiterals : List (String × Value) → List String
  | [] => []
  | (name, v) :: rest => (Text.quoted name ++ ": " ++ literal v) :: fieldLiterals rest

end

def display : Value → String
  | text s => s
  | moment t universal => momentText t universal
  | actor a => a.name
  | outcome o => o.key
  | state w => "WorkflowState." ++ Text.upper w.name
  | v => literal v

/-- Whether a message may carry the value as an argument: texts, numbers and points in time may be,
truth values may not. -/
def isMessageArgument : Value → Bool
  | text _ => true
  | state _ => true
  | int _ => true
  | float _ => true
  | moment .. => true
  | _ => false

end Value

/-- A labelled value shown to the actor who makes a decision. -/
structure Fact where
  key : String
  value : Value
  deriving Repr, BEq, Inhabited

end ApprovalFlow
