import ApprovalFlow.Settings.Reading

/-!
# Settings

The engine's settings: the level of the log, and the approver of each workflow key. A library reads them from
arguments, environment variables and a file (`Library.find`). What it finds is checked here: the level in any case
and with blanks around it, and of the approvers' names those that are not blank, without the blanks around them.
-/

namespace ApprovalFlow

structure Settings where
  logLevel : String
  approvers : Entries String String
  deriving Repr, DecidableEq, Inhabited

namespace Settings

def levels : List String := ["CRITICAL", "ERROR", "WARNING", "INFO", "DEBUG", "NOTSET"]

/-- The level that a text stands for, in any case and with blanks around it. -/
def checkLevel (path text : String) : Except (List Complaint) String :=
  let level := Text.upper (Text.strip text)
  if levels.contains level then .ok level else .error [⟨[path], .unknownLevel text⟩]

/-- The approvers with no blanks around their names, and without blank names. -/
def stripNames (names : Entries String String) : Entries String String :=
  (names.map fun (key, name) => (key, Text.strip name)).filter fun (_, name) => name != ""

/-- The level that is found, or else the one for information. -/
def levelOf : Found String → Except (List Complaint) String
  | .ok none => .ok "INFO"
  | .ok (some (path, text)) => checkLevel path text
  | .error complaints => .error complaints

def approversOf : Found (Entries String String) → Except (List Complaint) (Entries String String)
  | .ok none => .ok []
  | .ok (some (_, names)) => .ok (stripNames names)
  | .error complaints => .error complaints

/-- The outcome of two checks, whose complaints are reported together. -/
def both (a : Except (List Complaint) String)
    (b : Except (List Complaint) (Entries String String)) : Except Problem Settings :=
  match a, b with
  | .ok level, .ok approvers => .ok ⟨level, approvers⟩
  | .error c, .error d => .error (.invalid (c ++ d))
  | .error c, .ok _ => .error (.invalid c)
  | .ok _, .error d => .error (.invalid d)

def Library.load (lib : Library) (sources : Sources) : Except Problem Settings := do
  let findings ← lib.find sources
  both (levelOf findings.level) (approversOf findings.approvers)

def load (sources : Sources) : Except Problem Settings := Library.standard.load sources

def approver? (s : Settings) (workflowKey : String) : Option Actor :=
  (Entries.get? workflowKey s.approvers).map Actor.mk

end Settings

end ApprovalFlow
