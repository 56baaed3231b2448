import ApprovalFlow.Settings.Dotenv
import ApprovalFlow.Settings.Manner

/-!
# Files of settings

Which files are read for assignments, and in which encoding: `.env` in the working directory, or those that an
argument names. Of files that assign the same variable the last counts. The paths of directories with secrets
are only checked; nothing is ever found there.
-/

namespace ApprovalFlow.Settings

open Text (Encoding)

/-- The parts of a path, without those that lead nowhere. -/
def pathParts (path : String) : List String :=
  (path.splitOn "/").filter fun part => part != "" && part != "."

def isDotenvPath (path : String) : Bool :=
  !path.startsWith "/" && pathParts path == [".env"]

def Sources.isHomeless (sources : Sources) (path : String) : Bool :=
  !path.startsWith "/" && match pathParts path with
    | part :: _ => part.startsWith "~" && !sources.users.contains (part.drop 1).toString
    | [] => false

def Sources.fileAt? (sources : Sources) (path : String) : Option String :=
  if isDotenvPath path then sources.dotenv else Entries.get? path sources.files

def pathValues : Value → Except Problem (List Value)
  | .null => .ok []
  | .text path => .ok [.text path]
  | .state w => .ok [.state w]
  | .list paths => .ok paths
  | .tuple paths => .ok paths
  | .object fields => .ok (fields.map fun (path, _) => .text path)
  | v => .error (.notFiles v.fullTypeName)

def pathOf (sources : Sources) (v : Value) : Except Problem String :=
  match textOf? v with
  | none => .error (.notAPath v.typeName)
  | some path => if sources.isHomeless path then .error .unknownHome else .ok path

def encodingOf : Option Value → Except Problem Encoding
  | none => .ok .utf8
  | some v =>
    if v.isNothing then .ok .utf8
    else match textOf? v with
      | none => .error (.encodingNotText v.fullTypeName)
      | some name =>
        match Encoding.ofName? name with
        | some e => .ok e
        | none => .error (.unknownEncoding name)

def readFile (sources : Sources) (file : String) : Except Problem Variables := do
  let e ← encodingOf (choice? sources.arguments "_env_file_encoding")
  match e.read file with
  | .ok text => return assignments sources.environment text
  | .error p => throw (.undecodable p)

/-- The variables that are assigned in the files that are chosen; without a choice that is `.env`. -/
def fileVariables (sources : Sources) : Except Problem Variables := do
  let paths ← pathValues ((Entries.get? "_env_file" sources.arguments).getD (.text ".env"))
  paths.foldlM (fun vars v => do
    match sources.fileAt? (← pathOf sources v) with
    | some file => return Entries.update vars (← readFile sources file)
    | none => return vars) []

def checkSecrets (sources : Sources) : Except Problem Unit := do
  let paths ← (← pathValues ((choice? sources.arguments "_secrets_dir").getD .null)).mapM (pathOf sources)
  if paths.any fun path => (sources.fileAt? path).isSome then throw .notADirectory

end ApprovalFlow.Settings
