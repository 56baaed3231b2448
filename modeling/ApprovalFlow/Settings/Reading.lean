import ApprovalFlow.Settings.Files
import ApprovalFlow.Settings.Library
import ApprovalFlow.Settings.Variables

/-!
# How settings are read

Settings come from three sources, the strongest first: arguments, environment variables, and a file of
assignments. A setting has two names, of which the outer one hides the other. What the sources give under one name
is put on top of each other before it is looked at. The level has to be a text, and the approvers an object of
texts.
-/

namespace ApprovalFlow.Settings

/-- What the arguments give; a setting counts as given under its outer name. -/
def argumentSettings (arguments : Entries String Value) : Entries String Value :=
  [levelName, approversName].filterMap fun name =>
    (argument? arguments name).map fun v => (name.outer, v)

def Sources.variables (sources : Sources) : Variables :=
  sources.environment.map fun (name, text) => (name, some text)

structure Given where
  arguments : Entries String Value
  environment : Entries String Value
  file : Entries String Value

def givenBy (sources : Sources) : Except Problem Given := do
  let m ← mannerOf sources.arguments
  let file ← fileVariables sources
  let fromEnvironment ← m.settingsIn .environment (m.keyed sources.variables)
  let fromFile ← m.settingsInFile (m.keyed file)
  return ⟨argumentSettings sources.arguments, fromEnvironment, fromFile⟩

namespace Given

def of (given : Given) : Source → Entries String Value
  | .arguments => given.arguments
  | .environment => given.environment
  | .dotenv => given.file

def all (given : Given) : Entries String Value :=
  overlayAll [given.arguments, given.environment, given.file]

/-- The name under which a setting counts: the outer one if any source gives it under that. -/
def nameOf (given : Given) (name : Name) : String :=
  if given.arguments.contains name.outer || given.environment.contains name.outer || given.file.contains name.outer
  then name.outer else name.own

end Given

def texts? (fields : List (String × Value)) : Option (Entries String String) :=
  fields.mapM fun (key, v) => (textOf? v).map fun s => (key, s)

/-- The map from keys to texts that a source gives under a name: empty if it gives nothing, none if it gives
something else. -/
def mapUnder? (name : String) (source : Entries String Value) : Option (Entries String String) :=
  match Entries.get? name source with
  | none => some []
  | some (.object fields) => texts? fields
  | some _ => none

/-- A setting among all that is given, under its outer name or else its own. -/
def given? (all : Entries String Value) (name : Name) : Option (String × Value) :=
  ((Entries.get? name.outer all).map fun v => (name.outer, v)).or
    ((Entries.get? name.own all).map fun v => (name.own, v))

def readText (path : String) (v : Value) : Except (List Complaint) String :=
  match textOf? v with
  | some s => .ok s
  | none => .error [⟨[path], .notText⟩]

def textComplaints (path : String) (fields : List (String × Value)) : List Complaint :=
  fields.filterMap fun (key, v) =>
    if (textOf? v).isNone then some ⟨[path, key], .notText⟩ else none

def readTexts (path : String) : Value → Except (List Complaint) (Entries String String)
  | .object fields =>
    match textComplaints path fields with
    | [] => .ok (fields.filterMap fun (key, v) => (textOf? v).map fun s => (key, s))
    | complaints => .error complaints
  | _ => .error [⟨[path], .notObject⟩]

def Given.found {α : Type} (given : Given) (arguments : Entries String Value) (name : Name)
    (read : String → Value → Except (List Complaint) α) : Found α :=
  match given? given.all name with
  | none => .ok none
  | some (found, v) =>
    let path := spokenName arguments name found
    (read path v).map fun x => some (path, x)

namespace Library

/-- A library that reads settings as this module does. -/
def standard : Library where
  approversFrom sources source :=
    match givenBy sources with
    | .ok given => (mapUnder? (given.nameOf approversName) (given.of source)).filter
        fun names => decide (Entries.keys names).Nodup
    | .error _ => none
  find sources := do
    let given ← givenBy sources
    checkSecrets sources
    return ⟨given.found sources.arguments levelName readText,
      given.found sources.arguments approversName readTexts⟩

end Library

end ApprovalFlow.Settings
