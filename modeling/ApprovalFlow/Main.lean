import ApprovalFlow.PageChange

/-!
# The page-change program

The command line around `PageChange.run`: it finds the sources of the settings, prints what the program
prints, and ends with its exit code. Time is counted and not measured: a second passes between two
readings of the clock.
-/

namespace ApprovalFlow.PageChange

def usage : String := "usage: [-h] [--page PAGE] --text TEXT [--deny]"

def variableNames : List String :=
  [Settings.levelName, Settings.approversName].flatMap fun name =>
    [name.own.toLower, name.own.toUpper, name.outer.toLower, name.outer.toUpper].eraseDups

def readEnvironment : IO (Entries String String) :=
  variableNames.filterMapM fun name => do
    return (← IO.getEnv name).map fun v => (name, v)

def readDotenv : IO (Option String) := do
  try
    return some (← IO.FS.readFile ".env")
  catch _ =>
    return none

def Stop.message : Stop → String
  | .refused _ => usage
  | .misconfigured p =>
    match p with
    | .invalid complaints =>
      String.intercalate "\n" (complaints.map fun c =>
        String.intercalate "." c.path ++ ": " ++ c.fault.message)
    | p => p.message.getD p.kind.label
  | .failed f => f.message.getD f.kind.label

def Stop.code : Stop → UInt32
  | .refused r => r.code.toUInt32
  | .misconfigured _ => 1
  | .failed _ => 1

end ApprovalFlow.PageChange

open ApprovalFlow PageChange

def main (words : List String) : IO UInt32 := do
  let sources : Settings.Sources := { environment := ← readEnvironment, dotenv := ← readDotenv }
  match PageChange.run default sources words with
  | .ok lines =>
    lines.forM IO.println
    return 0
  | .error (.refused .help) =>
    IO.println usage
    return 0
  | .error stop =>
    IO.eprintln stop.message
    return stop.code
