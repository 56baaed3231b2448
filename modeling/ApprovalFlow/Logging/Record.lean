import ApprovalFlow.Entries
import ApprovalFlow.Json.Writer
import ApprovalFlow.Template

/-!
# Log records

A record says when, how severely and by which logger something was noted, and what. Further values may
be set on it by name, either as they are (`Record.set`) or through the record, which refuses some names and
can be emptied (`Record.assign`). `Record.line` writes a record as one JSON object: the time, the level,
the logger, the workflow's id where one was set, the message, the other values, and the failure that was
noted.
-/

namespace ApprovalFlow.Logging

abbrev Level := Int

namespace Level

def debug : Level := 10
def info : Level := 20
def warning : Level := 30
def error : Level := 40
def critical : Level := 50

/-- The level that leaves the choice to the logger above. -/
def unset : Level := 0

def name (level : Level) : String :=
  if level = 50 then "CRITICAL"
  else if level = 40 then "ERROR"
  else if level = 30 then "WARNING"
  else if level = 20 then "INFO"
  else if level = 10 then "DEBUG"
  else if level = 0 then "NOTSET"
  else s!"Level {level}"

/-- The level of a name in upper case. -/
def ofName? (s : String) : Option Level :=
  if s = "CRITICAL" ∨ s = "FATAL" then some critical
  else if s = "ERROR" then some error
  else if s = "WARNING" ∨ s = "WARN" then some warning
  else if s = "INFO" then some info
  else if s = "DEBUG" then some debug
  else if s = "NOTSET" then some unset
  else none

end Level

def standardAttributes : List String :=
  ["name", "msg", "args", "levelname", "levelno", "pathname", "filename", "module", "exc_info",
    "exc_text", "stack_info", "lineno", "funcName", "created", "msecs", "relativeCreated", "thread",
    "threadName", "processName", "process"]

/-- The names that a caller's value may not have: the standard attributes and two that are set when a
record is written. -/
def reservedNames : List String := standardAttributes ++ ["message", "asctime"]

def workflowIdName : String := "workflow_id"

def writtenParts : List String := ["created", "levelname", "name", "msg", "args", "exc_info"]

/-- The name of what gives a record's message. -/
def messageName : String := "getMessage"

inductive Problem where
  -- Setting values.
  | notAClass (typeName : String)
  | notADictionary (typeName : String)
  | notWritable (name : String)
  -- The message.
  | template (p : Template.Problem)
  | notCallable (typeName : String)
  -- The time at which it was created.
  | notATime (typeName : String)
  | notANumber
  | secondsTooLarge
  | timeTooLarge
  | calendarTooSmall
  | yearOutOfRange (year : Int)
  -- The failure that was noted.
  | notAFailure (typeName : String)
  | tooFewParts (collection : String)
  | noPart
  | missingMember (typeName member : String)
  -- The document.
  | excess (x : Excess)
  deriving Repr, DecidableEq

namespace Problem

/-- What is said about a problem. A failed look-up says nothing. -/
def message : Problem → Option String
  | notAClass typeName => some s!"__class__ must be set to a class, not '{typeName}' object"
  | notADictionary typeName => some s!"__dict__ must be set to a dictionary, not a '{typeName}'"
  | notWritable name => some s!"attribute '{name}' of 'LogRecord' objects is not writable"
  | template p => some p.message
  | notCallable typeName => some s!"'{typeName}' object is not callable"
  | notATime typeName => some s!"'{typeName}' object cannot be interpreted as an integer"
  | notANumber => some "Invalid value NaN (not a number)"
  | secondsTooLarge => some "integer division result too large for a float"
  | timeTooLarge => some "timestamp out of range for platform time_t"
  | calendarTooSmall => some "[Errno 75] Value too large for defined data type"
  | yearOutOfRange year => some s!"year {year} is out of range"
  | notAFailure typeName => some s!"'{typeName}' object is not subscriptable"
  | tooFewParts collection => some s!"{collection} index out of range"
  | noPart => none
  | missingMember typeName member => some s!"'{typeName}' object has no attribute '{member}'"
  | excess x => some (x.message "encoding a JSON object")

def kind : Problem → FailureKind
  | template p => p.kind
  | notAClass _ | notADictionary _ | notCallable _ | notATime _ | notAFailure _ => .wrongType
  | secondsTooLarge | timeTooLarge => .overflow
  | calendarTooSmall => .system
  | notANumber | yearOutOfRange _ | excess (.digits _) => .badValue
  | excess .depth => .exhausted
  | tooFewParts _ => .outOfBounds
  | noPart => .missingKey
  | missingMember .. | notWritable _ => .missingMember

end Problem

/-- When a record was created: a number of microseconds, or the value that a caller has set. -/
inductive Created where
  | clocked (t : Instant)
  | set (v : Value)
  deriving Repr, BEq

/-- What a record notes as its failure: a failure's text, or the value that a caller has set. -/
inductive Noted where
  | failure (text : String)
  | set (v : Value)
  deriving Repr, BEq

/-- A record. Its logger, level and text are values, because they may be set by name. -/
structure Record where
  logger : Value
  level : Value
  text : Value
  arguments : Template.Arguments
  created : Created
  failure : Option Noted
  extras : Entries String Value
  /-- The names of the parts that it does not have. -/
  lacks : List String := []
  deriving Repr, BEq

namespace Record

def make (logger : String) (level : Level) (text : Value) (arguments : List Value) (created : Instant)
    (failure : Option String) : Record :=
  { logger := .text logger, level := .text level.name, text, arguments := .ofList arguments
    created := .clocked created, failure := failure.map .failure, extras := [] }

def empty : Record :=
  { make "" .unset .null [] 0 none with lacks := writtenParts }

/-- Sets a value by name. Standard names reach the record's own parts; of those only the ones that are
written matter. -/
def set (r : Record) (name : String) (v : Value) : Record :=
  let r := { r with lacks := r.lacks.filter (· != name) }
  if name = "name" then { r with logger := v }
  else if name = "levelname" then { r with level := v }
  else if name = "msg" then { r with text := v }
  else if name = "args" then { r with arguments := .ofValue v }
  else if name = "created" then { r with created := .set v }
  else if name = "exc_info" then { r with failure := if v.isNothing then none else some (.set v) }
  else if reservedNames.contains name then r
  else { r with extras := Entries.put name v r.extras }

/-- Sets a value by name through the record. Its kind cannot be set; its whole content can, to that of an
object. -/
def assign (r : Record) (name : String) (v : Value) : Except Problem Record :=
  if name = "__class__" then .error (.notAClass v.fullTypeName)
  else if name = "__weakref__" then .error (.notWritable name)
  else if name = "__dict__" then
    match v with
    | .object fields => .ok (fields.foldl (fun r (name, v) => r.set name v) empty)
    | v => .error (.notADictionary v.fullTypeName)
  else .ok (r.set name v)

def assignAll (r : Record) (values : List (String × Value)) : Except Problem Record :=
  values.foldlM (fun r (name, v) => r.assign name v) r

def require (r : Record) (name : String) : Except Problem Unit :=
  if r.lacks.contains name then .error (.missingMember "LogRecord" name) else .ok ()

/-- A number of seconds `num / den`, rounded to microseconds as a double holds them: the fraction is
scaled as a double and rounded to the even neighbour. -/
def microsOfSeconds (num den : Nat) : Nat :=
  let fraction := Decimal.nearestDouble (num % den * 1000000) den
  num / den * 1000000 + roundDiv fraction.1 fraction.2

/-- A number of microseconds that lies in a year of four digits at most. Seconds are counted in 64 bits
and years in 32: time beyond those counts is refused first, and a year is named as 32 bits hold it. -/
def inRange (t : Instant) : Except Problem Instant :=
  let seconds := t.fdiv 1000000
  let year := (Instant.civil t.day).1
  if (Nat.pow 2 63 : Nat) < seconds ∨ seconds < -(Nat.pow 2 63 : Nat) then .error .timeTooLarge
  else if year - 1900 < -(Nat.pow 2 31 : Nat) ∨ (Nat.pow 2 31 : Nat) ≤ year - 1900 then
    .error .calendarTooSmall
  else if 1 ≤ year ∧ year ≤ 9999 then .ok t
  else .error (.yearOutOfRange (year.bmod (Nat.pow 2 32)))

def ofSeconds (negative : Bool) (num den : Nat) : Except Problem Instant :=
  let micros : Int := microsOfSeconds num den
  inRange (if negative then -micros else micros)

def ofWholeSeconds (n : Int) : Except Problem Instant :=
  if n = (Nat.pow 2 63 : Nat) then .error .timeTooLarge else inRange (n * 1000000)

def instant (r : Record) : Except Problem Instant :=
  match r.created with
  | .clocked t =>
    let (num, den) := Decimal.nearestDouble t.natAbs 1000000
    if Nat.pow 2 1024 * den ≤ num then .error .secondsTooLarge else ofSeconds (t < 0) num den
  | .set (.int n) => ofWholeSeconds n
  | .set (.bool b) => .ok (if b then 1000000 else 0)
  | .set (.float (.finite negative n e _)) =>
    let (num, den) := Decimal.exactValue n e
    ofSeconds negative num den
  | .set (.float .nan) => .error .notANumber
  | .set (.float _) => .error .timeTooLarge
  | .set v => .error (.notATime v.fullTypeName)

/-- What is written for a failure in three parts, of which the second is the failure itself and the third
says where it arose: there is something to write only if both are nothing. -/
def partsText (failure origin : Value) : Except Problem String :=
  match failure, origin with
  | .null, .null => .ok "NoneType: None"
  | v, .null => .error (.missingMember v.fullTypeName "__suppress_context__")
  | _, v => .error (.missingMember v.fullTypeName "tb_frame")

def noteText : Noted → Except Problem String
  | .failure text => .ok text
  | .set (.list (_ :: failure :: origin :: _)) => partsText failure origin
  | .set (.tuple (_ :: failure :: origin :: _)) => partsText failure origin
  | .set (.list _) => .error (.tooFewParts "list")
  | .set (.tuple _) => .error (.tooFewParts "tuple")
  | .set (.object _) => .error .noPart
  | .set (.text s) =>
    if s.length < 3 then .error (.tooFewParts "string")
    else .error (.missingMember "str" "tb_frame")
  | .set (.state _) => .error (.missingMember "str" "tb_frame")
  | .set v => .error (.notAFailure v.fullTypeName)

def failureText? (r : Record) : Except Problem (Option String) :=
  match r.failure with
  | none => .ok none
  | some noted => (noteText noted).map some

/-- The text of a record with its arguments filled in. Without arguments it is taken as it is. A value set
under the name of what gives the message stands in its way. -/
def message (r : Record) (limits : Limits) : Except Problem String := do
  if let some v := Entries.get? messageName r.extras then throw (.notCallable v.fullTypeName)
  r.require "msg"
  let text ← (Template.shownBy limits Value.display r.text).mapError .template
  r.require "args"
  if r.arguments.left.isEmpty then return text
  else (Template.fill limits text r.arguments).mapError .template

/-- The values set by the caller that are written together: all but the workflow's id and those whose
name starts with an underscore. -/
def fields (r : Record) : Entries String Value :=
  r.extras.filter fun (name, _) => name != workflowIdName && !name.startsWith "_"

def members (r : Record) (limits : Limits) : Except Problem (List (String × Value)) := do
  r.require "created"
  let t ← r.instant
  r.require "levelname"
  r.require "name"
  let text ← r.message limits
  let id := match Entries.get? workflowIdName r.extras with
    | some v => [(workflowIdName, v)]
    | none => []
  let fields := if r.fields.isEmpty then [] else [("fields", Value.object r.fields)]
  r.require "exc_info"
  let failure := match ← r.failureText? with
    | some text => [("exception", Value.text text)]
    | none => []
  return [("timestamp", .text (t.stamp 'T' ++ "+00:00")), ("level", r.level), ("logger", r.logger)] ++
    id ++ [("message", .text text)] ++ fields ++ failure

def line (r : Record) (limits : Limits := .usual) : Except Problem String := do
  let members ← r.members limits
  (Json.dump limits .line (.object members)).mapError .excess

end Record

/-- How a failure shows in a record: its name, and what it says if that is not empty. -/
def failureText (kind : FailureKind) (message : String) : String :=
  if message.isEmpty then kind.qualifiedLabel else kind.qualifiedLabel ++ ": " ++ message

end ApprovalFlow.Logging
