import ApprovalFlow.Logging.Loggers
import ApprovalFlow.Text.Uppercase

/-!
# Where log lines go

Two loggers have a level of their own: the root, and the engine's logger; a logger below neither's level
takes that of the nearest one above. Every record that is severe enough for its logger goes to all handlers of
the root. `configure` leaves exactly one handler. What was decided about a logger and a level stays decided
until levels are set again, also if another logger has come to stand between.
-/

namespace ApprovalFlow.Logging

/-- What takes the records of the root: nothing that can be read, or a stream. -/
inductive Handler where
  | silent
  | stream (name : String)
  deriving Repr, DecidableEq, Inhabited

structure Routing where
  handlers : List Handler
  rootLevel : Level
  engineLevel : Level
  deriving Repr, DecidableEq, Inhabited

structure UnknownLevel where
  name : String
  deriving Repr, DecidableEq

def UnknownLevel.message (u : UnknownLevel) : String :=
  s!"Unknown level: {Text.quoted u.name}"

inductive Refusal where
  /-- The name of its level cannot be told. -/
  | unnameable (x : Excess)
  /-- A value would take a reserved name. -/
  | reserved (name : String)
  /-- There was no room to write the record. -/
  | exhausted (p : Problem)
  deriving Repr, DecidableEq

def Refusal.message : Refusal → String
  | unnameable x => x.message ""
  | reserved name => s!"Attempt to overwrite '{name}' in LogRecord"
  | exhausted p => p.message.getD ""

structure Note where
  logger : String
  level : Level
  text : Value
  arguments : List Value := []
  extras : Entries String Value := []
  deriving Repr, BEq

def Noted.isSomething : Noted → Bool
  | failure _ => true
  | set v => !v.isNothing

/-- The record of a note, and of the failure that is noted with it, before other values are set. -/
def Note.base (n : Note) (created : Instant) (failure : Option Noted) : Record :=
  { Record.make (shownName n.logger) n.level n.text n.arguments created none with
    failure := failure.filter Noted.isSomething }

def Note.record (n : Note) (created : Instant) (failure : Option Noted := none) : Record :=
  n.extras.foldl (fun r (name, v) => r.set name v) (n.base created failure)

/-- Where errors of logging itself are told, and what is said there of a record that cannot be written. -/
structure ErrorOutput where
  stream : String
  report : Record → Problem → String

namespace Routing

/-- The level of a name in any case. -/
def levelNamed (name : String) : Except UnknownLevel Level :=
  match Level.ofName? (Text.upper name) with
  | some level => .ok level
  | none => .error ⟨Text.upper name⟩

/-- Sends everything to one stream and sets the levels; without a level of its own the engine follows
the root. The stream is changed first, then the root's level, then the engine's: an unknown name stops
there. -/
def configure (r : Routing) (level : String) (engineLevel : Option String) (stream : String) :
    Except UnknownLevel Unit × Routing :=
  let r := { r with handlers := [.stream stream] }
  match levelNamed level with
  | .error u => (.error u, r)
  | .ok level =>
    let r := { r with rootLevel := level }
    match engineLevel with
    | none => (.ok (), { r with engineLevel := .unset })
    | some name =>
      if name = "" then (.ok (), { r with engineLevel := .unset })
      else match levelNamed name with
        | .error u => (.error u, r)
        | .ok level => (.ok (), { r with engineLevel := level })

/-- The level that holds for a logger: that of the nearest one above with a level. -/
def effectiveLevel (r : Routing) (names : List String) (logger : String) : Level :=
  if isEngine names logger && r.engineLevel != .unset then r.engineLevel else r.rootLevel

/-- What a handler makes of a record: a line in its stream. A record that cannot be written is reported as an
error, unless there was no room to write it. -/
def handle (limits : Limits) (errors : Option ErrorOutput) (record : Record) :
    Handler → Except Refusal (List (String × String))
  | .silent => .ok []
  | .stream name =>
    match record.line limits with
    | .ok line => .ok [(name, line)]
    | .error p =>
      if p.kind = .exhausted then .error (.exhausted p)
      else .ok (errors.toList.map fun o => (o.stream, o.report record p))

def deliver (r : Routing) (limits : Limits) (errors : Option ErrorOutput) (created : Instant) (n : Note)
    (failure : Option Noted) : Except Refusal (List (String × String)) :=
  match Value.excessOfInt? limits n.level with
  | some x => .error (.unnameable x)
  | none =>
    match n.extras.find? (fun (name, _) => reservedNames.contains name) with
    | some (name, _) => .error (.reserved name)
    | none => (r.handlers.mapM (handle limits errors (n.record created failure))).map List.flatten

end Routing

/-- Where logging stands: where records go, the loggers that there are beside the root and the engine's, and
what has been decided since levels were last set. -/
structure State where
  routing : Routing
  names : List String := []
  decided : Entries (String × Level) Bool := []
  deriving Repr, DecidableEq

namespace State

/-- Configures the routing. To set a level unsettles what was decided. -/
def configure (st : State) (level : String) (engineLevel : Option String) (stream : String) :
    Except UnknownLevel Unit × State :=
  let configured := st.routing.configure level engineLevel stream
  (configured.1, { st with
    routing := configured.2
    decided := if (Routing.levelNamed level).isOk then [] else st.decided })

def effectiveLevel (st : State) (logger : String) : Level := st.routing.effectiveLevel st.names logger

/-- Whether a record of this level is taken from this logger. Levels below one never are. -/
def takes (st : State) (logger : String) (level : Level) : Bool :=
  (Entries.get? (shownName logger, level) st.decided).getD (0 < level && st.effectiveLevel logger ≤ level)

def ask (st : State) (logger : String) : State := { st with names := withLogger st.names logger }

/-- It has been decided whether records of a level are taken from a logger. -/
def settle (st : State) (logger : String) (level : Level) : State :=
  { st with decided := Entries.put (shownName logger, level) (st.takes logger level) st.decided }

def after (st : State) (n : Note) : State := (st.ask n.logger).settle n.logger n.level

def write (st : State) (limits : Limits) (errors : Option ErrorOutput) (created : Instant) (n : Note)
    (failure : Option Noted) : Except Refusal (List (String × String)) :=
  if (st.ask n.logger).takes n.logger n.level then st.routing.deliver limits errors created n failure
  else .ok []

end State

/-- What a note writes where no loggers have come to stand between the engine's and those below it. -/
def Routing.write (r : Routing) (created : Instant) (n : Note) : Except Refusal (List (String × String)) :=
  State.write ⟨r, [], []⟩ .usual none created n none

end ApprovalFlow.Logging
