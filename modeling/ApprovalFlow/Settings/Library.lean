import ApprovalFlow.Settings.Problem
import ApprovalFlow.Settings.Sources

/-!
# Reading settings

The engine declares its settings, and a library reads them: it finds the sources, takes their texts apart, and
puts what they give on top of each other. What it finds of a setting is a value of the setting's type, which is
then checked by the engine. Nothing else is known of the library than what is documented (`Library.Layered`).
-/

namespace ApprovalFlow.Settings

/-- What is found of a setting: nothing, or a value with the name under which complaints speak of it. -/
abbrev Found (α : Type) := Except (List Complaint) (Option (String × α))

structure Findings where
  level : Found String
  approvers : Found (Entries String String)
  deriving Repr

structure Library where
  /-- The approvers that one source gives by itself: an empty map if it gives none, and no map if it gives
  something else. -/
  approversFrom : Sources → Source → Option (Entries String String)
  /-- What all sources give together. -/
  find : Sources → Except Problem Findings

/-- Two settings as arguments, each under a name of its own. -/
def asArguments (level approvers text : String) (names : Entries String String) : Sources where
  arguments := [(level, .text text), (approvers, .object (names.map fun p => (p.1, .text p.2)))]

/-- What is documented of reading approvers. Maps have no key twice. The map of a stronger source is put on that
of a weaker one key by key, arguments on the environment and that on the file. Arguments count as they are under
either name of a setting if nothing else is given. -/
structure Library.Layered (lib : Library) : Prop where
  distinct : ∀ sources source names, lib.approversFrom sources source = some names → (Entries.keys names).Nodup
  merged : ∀ sources fromArguments fromEnvironment fromFile findings found,
    lib.approversFrom sources .arguments = some fromArguments →
    lib.approversFrom sources .environment = some fromEnvironment →
    lib.approversFrom sources .dotenv = some fromFile →
    lib.find sources = .ok findings → findings.approvers = .ok found →
      (found.map (·.2)).getD [] = Entries.update fromFile (Entries.update fromEnvironment fromArguments)
  direct : ∀ level approvers text names, level = levelName.outer ∨ level = levelName.own →
    approvers = approversName.outer ∨ approvers = approversName.own → (Entries.keys names).Nodup →
      ∃ findings path path', lib.find (asArguments level approvers text names) = .ok findings ∧
        findings.level = .ok (some (path, text)) ∧ findings.approvers = .ok (some (path', names))

end ApprovalFlow.Settings
