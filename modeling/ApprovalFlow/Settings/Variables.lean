import ApprovalFlow.Settings.Nested
import ApprovalFlow.Settings.Overlay

/-!
# Settings among variables

What the variables of one source give, by the names under which they give it. A setting is looked up under
its outer name and then under its own. The text of the approvers is a document, to which variables with keys
in their names add. In a file, a variable that is no setting may still name one, once what stands before
it is taken away.
-/

namespace ApprovalFlow.Settings

/-- The text of a setting among the variables, with the name under which it is given. A name without a
text counts as absent. -/
def Manner.assigned? (m : Manner) (vars : Variables) (name : Name) : Option (String × String) :=
  match (Entries.get? (m.outerKey name) vars).join with
  | some text => some (name.outer, text)
  | none => (Entries.get? (m.ownKey name) vars).join.map fun text => (name.own, text)

def Manner.levelIn (m : Manner) (vars : Variables) : Option (String × Value) :=
  (m.assigned? vars levelName).map fun (name, text) => (name, m.value text)

/-- The value of the approvers' text. A document that holds nothing counts as absent. -/
def Manner.approversText (m : Manner) (source : Source) (vars : Variables) (text : String) :
    Except Problem (Option Value) :=
  if m.nullText = some text then .ok (some .null)
  else match Json.read .usual text with
    | .error .malformed => .error (.unreadable source)
    | .error .tooDeep => .error .tooDeep
    | .ok .null => .ok none
    | .ok (.object fields) => do
      return some (.object (overlayFields fields (← m.nested approversName vars)))
    | .ok v => .ok (some v)

def Manner.approversIn (m : Manner) (source : Source) (vars : Variables) :
    Except Problem (Option (String × Value)) := do
  match m.assigned? vars approversName with
  | some (name, text) => return (← m.approversText source vars text).map fun v => (name, v)
  | none =>
    match ← m.nested approversName vars with
    | [] => return none
    | fields => return some (approversName.own, .object fields)

def Manner.settingsIn (m : Manner) (source : Source) (vars : Variables) :
    Except Problem (Entries String Value) := do
  if m.lead.isNone && (m.leadsOuter || m.leadsOwn) then throw (.unnamed source)
  return Entries.ofList ((m.levelIn vars).toList ++ (← m.approversIn source vars).toList)

/-- Whether a variable is looked up for a setting, or starts like one that holds approvers. -/
def Manner.isLookedUp (m : Manner) (key : String) : Bool :=
  [m.outerKey levelName, m.ownKey levelName].contains key ||
    [m.outerKey approversName, m.ownKey approversName].any fun start => key.startsWith start

def Manner.withoutLead (m : Manner) (key : String) : String :=
  (afterStart? m.lead.toList key).getD key

def Manner.addOther (m : Manner) (found : Entries String Value) (key : String) (text : String) :
    Entries String Value :=
  let isOwnName := [levelName.own, approversName.own].contains key
  if found.contains key || (m.lead != some "" && isOwnName) || m.isLookedUp key then found
  else Entries.put (m.withoutLead key) (.text text) found

def Manner.settingsInFile (m : Manner) (vars : Variables) :
    Except Problem (Entries String Value) := do
  return vars.foldl (fun found (key, text) =>
    match text with
    | none => found
    | some text => if text = "" then found else m.addOther found key text)
    (← m.settingsIn .dotenv vars)

end ApprovalFlow.Settings
