import ApprovalFlow.Entries
import ApprovalFlow.Text.Lowercase
import ApprovalFlow.Value

/-!
# Sources of settings

Settings are given by arguments, by environment variables and by a file of assignments. A setting has
two names, an outer one and its own. This module finds a setting among the arguments: in any case, under
its outer name before its own. It then counts as given under the outer name, though complaints may speak of
the other.
-/

namespace ApprovalFlow.Settings

/-- Those whose homes most systems have; the empty name stands for whoever asks. -/
def usualUsers : List String :=
  ["", "root", "daemon", "bin", "sys", "sync", "games", "man", "lp", "mail", "news", "uucp", "proxy",
    "www-data", "backup", "list", "irc", "nobody"]

/-- The three sources of settings, and where files of assignments are found. -/
structure Sources where
  arguments : Entries String Value := []
  environment : Entries String String := []
  /-- The file `.env` in the working directory. -/
  dotenv : Option String := none
  /-- The texts of other files by the paths that lead there. -/
  files : Entries String String := []
  /-- Those who have a home. -/
  users : List String := usualUsers
  deriving Repr, Inhabited

/-- A setting's two names: the one it has outside, and its own, which is weaker. -/
structure Name where
  outer : String
  own : String
  /-- The one that complaints use where arguments give both. -/
  spoken : String
  deriving Repr, DecidableEq

def levelName : Name := ⟨"LOG_LEVEL", "log_level", "log_level"⟩
def approversName : Name := ⟨"WORKFLOW_APPROVERS", "approvers", "WORKFLOW_APPROVERS"⟩

def textOf? : Value → Option String
  | .text s => some s
  | .state w => some w.name
  | _ => none

/-- The first argument whose name is `name` in some case. -/
def argumentInCase? (arguments : Entries String Value) (name : String) : Option Value :=
  (arguments.find? fun (n, _) => Text.lower n == Text.lower name).map (·.2)

def argument? (arguments : Entries String Value) (name : Name) : Option Value :=
  (argumentInCase? arguments name.outer).or (argumentInCase? arguments name.own)

/-- The name under which complaints speak of a setting that was found under the name `found`: one of its
names as the arguments give it, if they do. -/
def spokenName (arguments : Entries String Value) (name : Name) (found : String) : String :=
  match arguments.contains name.outer, arguments.contains name.own with
  | true, true => name.spoken
  | true, false => name.outer
  | false, true => name.own
  | false, false => found

/-- What an argument chooses; nothing is no choice. -/
def choice? (arguments : Entries String Value) (name : String) : Option Value :=
  match Entries.get? name arguments with
  | some .null => none
  | v => v

def isAsked (arguments : Entries String Value) (name : String) : Bool :=
  (choice? arguments name).any (!·.isNothing)

end ApprovalFlow.Settings
