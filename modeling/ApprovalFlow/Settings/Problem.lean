import ApprovalFlow.Text.Encoding

/-!
# Problems with settings

What can be wrong with the sources from which settings are read.
-/

namespace ApprovalFlow.Settings

inductive Source where
  | arguments
  | environment
  | dotenv
  deriving Repr, DecidableEq, Inhabited

def Source.name : Source → String
  | .arguments => "InitSettingsSource"
  | .environment => "EnvSettingsSource"
  | .dotenv => "DotEnvSettingsSource"

inductive Fault where
  | notText
  | notObject
  | unknownLevel (text : String)
  deriving Repr, DecidableEq, Inhabited

namespace Fault

def code : Fault → String
  | notText => "string_type"
  | notObject => "dict_type"
  | unknownLevel _ => "value_error"

def message : Fault → String
  | notText => "Input should be a valid string"
  | notObject => "Input should be a valid dictionary"
  | unknownLevel text => s!"Value error, Unknown log level: {text}"

end Fault

/-- A fault with the way to the value at fault: the name it was given under, then a key. -/
structure Complaint where
  path : List String
  fault : Fault
  deriving Repr, DecidableEq, Inhabited

inductive Problem where
  -- How the sources are to be read.
  /-- What stands before the names of variables has no length. -/
  | noLength (typeName : String)
  /-- What stands before the names of variables is no text. -/
  | unnamed (source : Source)
  /-- How many keys a variable's name may hold is no number. -/
  | notANumber (typeName : String)
  /-- How many keys a variable's name may hold is no whole number. -/
  | notWhole (typeName : String)
  /-- What stands between keys is no text. -/
  | delimiterNotText (typeName : String)
  /-- An encoding is chosen by something else than its name. -/
  | encodingNotText (typeName : String)
  | unknownEncoding (name : String)
  -- Which files are read.
  /-- The choice of files is no collection. -/
  | notFiles (typeName : String)
  /-- A file is chosen by something else than its path. -/
  | notAPath (typeName : String)
  /-- A path starts at the home of somebody unknown. -/
  | unknownHome
  /-- A file stands where a directory is asked for. -/
  | notADirectory
  -- What they hold.
  | undecodable (problem : Text.Encoding.Problem)
  /-- The text of the approvers is not a document that can be read. -/
  | unreadable (source : Source)
  /-- Brackets in the text of the approvers are nested too deeply. -/
  | tooDeep
  /-- Values are of the wrong kind or unknown. -/
  | invalid (complaints : List Complaint)
  deriving Repr, DecidableEq, Inhabited

/-- What is said about a problem; complaints speak for themselves. -/
def Problem.message : Problem → Option String
  | noLength typeName => some s!"object of type '{typeName}' has no len()"
  | unnamed source =>
    some s!"error getting value for field \"log_level\" from source \"{source.name}\""
  | notANumber typeName => some s!"unsupported operand type(s) for -: '{typeName}' and 'int'"
  | notWhole typeName => some s!"'{typeName}' object cannot be interpreted as an integer"
  | delimiterNotText typeName => some s!"must be str or None, not {typeName}"
  | encodingNotText typeName =>
    some s!"open() argument 'encoding' must be str or None, not {typeName}"
  | unknownEncoding name => some s!"unknown encoding: {name}"
  | notFiles typeName => some s!"'{typeName}' object is not iterable"
  | notAPath typeName => some s!"expected str, bytes or os.PathLike object, not {typeName}"
  | unknownHome => some "Could not determine home directory."
  | notADirectory => some "secrets_dir must reference a directory, not a file"
  | undecodable problem => some problem.message
  | unreadable source =>
    some s!"error parsing value for field \"approvers\" from source \"{source.name}\""
  | tooDeep => none
  | invalid _ => none

end ApprovalFlow.Settings
