import ApprovalFlow.Settings.Problem
import ApprovalFlow.Settings.Sources

/-!
# How variables are read

Arguments whose names start with an underscore say how variables are read: whether case tells their names
apart, what stands before the names, which text stands for nothing, and whether a name may go on with keys
into the value.
-/

namespace ApprovalFlow.Settings

structure Manner where
  /-- Whether case tells the names of variables apart. -/
  exactNames : Bool := false
  /-- Whether a variable with an empty text counts as absent. -/
  skipsEmpty : Bool := false
  /-- What stands before the names of variables; nothing if it is no text. -/
  lead : Option String := some ""
  /-- Whether it stands before outer names. -/
  leadsOuter : Bool := false
  /-- Whether it stands before own names. -/
  leadsOwn : Bool := true
  /-- The text that stands for nothing. -/
  nullText : Option String := none
  /-- What stands between a variable's name and keys, and between keys. -/
  delimiter : Option String := none
  /-- How often it may stand between keys. -/
  splits : Option Nat := none
  /-- Why names cannot be taken apart into keys, if they cannot. -/
  keysProblem : Option Problem := none
  deriving Repr, DecidableEq, Inhabited

/-- The variables of a source; one without a text is named and not assigned. -/
abbrev Variables := Entries String (Option String)

def Manner.key (m : Manner) (name : String) : String :=
  if m.exactNames then name else Text.lower name

def Manner.outerKey (m : Manner) (name : Name) : String :=
  m.key ((if m.leadsOuter then m.lead.getD "" else "") ++ name.outer)

def Manner.ownKey (m : Manner) (name : Name) : String :=
  m.key ((if m.leadsOwn then m.lead.getD "" else "") ++ name.own)

/-- The variables by the keys of their names; of names with one key the last counts. -/
def Manner.keyed (m : Manner) (vars : Variables) : Variables :=
  Entries.ofList ((vars.filter fun (_, v) => !(m.skipsEmpty && v == some "")).map
    fun (name, v) => (m.key name, v))

def Manner.value (m : Manner) (text : String) : Value :=
  if m.nullText = some text then .null else .text text

/-- What stands before the names of variables. It has to have a length, and is of use only if it is a
text. -/
def leadOf : Option Value → Except Problem (Option String)
  | none => .ok (some "")
  | some (.list _) => .ok none
  | some (.tuple _) => .ok none
  | some (.object _) => .ok none
  | some v =>
    match textOf? v with
    | some s => .ok (some s)
    | none => .error (.noLength v.fullTypeName)

/-- How often a delimiter may stand between keys, from the number of keys; no number, or one that is not
positive, is no limit. -/
def splitsOf : Option Value → Except Problem (Option Nat)
  | none => .ok none
  | some (.int n) => .ok (if 0 < n then some (n.toNat - 1) else none)
  | some (.bool true) => .ok (some 0)
  | some (.float _) => .ok none
  | some v => if v.isNothing then .ok none else .error (.notANumber v.fullTypeName)

/-- Why names cannot be taken apart with a delimiter that is no text, or for a number of keys that is not
whole. The number is looked at first. -/
def keysProblemOf (delimiter splits : Option Value) : Option Problem :=
  let ofDelimiter := delimiter.bind fun d =>
    if (textOf? d).isSome then none else some (Problem.delimiterNotText d.fullTypeName)
  match splits with
  | some (.float x) =>
    if (Value.float x).isNothing then ofDelimiter else some (.notWhole (Value.float x).typeName)
  | _ => ofDelimiter

def mannerOf (arguments : Entries String Value) : Except Problem Manner := do
  let keys := choice? arguments "_env_nested_max_split"
  let delimiter := (choice? arguments "_env_nested_delimiter").filter (!·.isNothing)
  let splits ← splitsOf keys
  let lead ← leadOf (choice? arguments "_env_prefix")
  let text (name : String) : Option String := (choice? arguments name).bind textOf?
  let place := (choice? arguments "_env_prefix_target").elim (some "variable") textOf?
  return {
    exactNames := isAsked arguments "_case_sensitive"
    skipsEmpty := isAsked arguments "_env_ignore_empty"
    lead, splits
    leadsOuter := place == some "alias" || place == some "all"
    leadsOwn := place == some "variable" || place == some "all"
    nullText := text "_env_parse_none_str"
    delimiter := delimiter.map fun d => (textOf? d).getD d.display
    keysProblem := keysProblemOf delimiter keys }

end ApprovalFlow.Settings
