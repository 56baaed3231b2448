import ApprovalFlow.Scenario.Perform
import ApprovalFlow.Scenario.View

/-!
# Sessions

A session performs commands one after another and reports on each: what it resulted in, what hooks saw,
which things look different from when they were last reported, and the lines that were logged.
-/

namespace ApprovalFlow.Scenario

open Logging (Routing)

/-- How deeply hooks may call the engine from within each other. -/
def nesting : Nat := 200

structure Report where
  result : Except Failure Answer
  trace : List Sight
  changed : List (String × View)
  lines : List String

structure Setup where
  clock : Clock := default
  /-- Whether changes are left out of the reports. -/
  quiet : Bool := false
  /-- Where log lines go, if anywhere. -/
  routing : Option Routing := none

/-- Where a session stands: the engine, and for each named thing the view last reported. -/
structure Session where
  engine : Engine State
  reported : Array View := #[]

def journalLines (routing : Option Routing) (journal : Array Logging.Note) : List String :=
  match routing with
  | none => []
  | some r => journal.toList.flatMap fun n =>
      match r.write 0 n with
      | .ok lines => lines.map (·.2)
      | .error _ => []

/-- The views of all named things, and those among them that do not look like the ones last reported. -/
def changes (s : Session) : Array View × List (String × View) :=
  let views := s.engine.host.subjects.map fun (name, x) => (name, view s.engine x)
  let changed := views.toList.zipIdx.filter fun ((_, v), i) => !(s.reported[i]?).any v.alike
  (views.map (·.2), changed.map (·.1))

def Session.step (setup : Setup) (s : Session) (c : Command Call) : Session × Report :=
  let (result, e) := (perform (hooks nesting) c).run s.engine
  let trace := e.host.trace.toList
  let lines := journalLines setup.routing e.journal
  let e := { e with journal := #[], host := { e.host with trace := #[] } }
  let s := { s with engine := e }
  if setup.quiet then (s, ⟨result, trace, [], lines⟩)
  else
    let (reported, changed) := changes s
    ({ s with reported }, ⟨result, trace, changed, lines⟩)

def Session.runFrom (setup : Setup) (s : Session) : List (Command Call) → List Report
  | [] => []
  | c :: rest =>
    let (s, report) := s.step setup c
    report :: s.runFrom setup rest

def run (setup : Setup) (commands : List (Command Call)) : List Report :=
  Session.runFrom setup { engine := { clock := setup.clock, host := default } } commands

end ApprovalFlow.Scenario
