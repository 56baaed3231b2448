import ApprovalFlow.Json.Reader
import ApprovalFlow.Settings.Manner

/-!
# Keys in the names of variables

A variable's name may go on after a delimiter with keys into the value of its setting, with the delimiter
between them: each such variable gives one value inside an object. Its text is read as a document where it
is one.
-/

namespace ApprovalFlow.Settings

structure Leaf where
  value : Value
  /-- Whether it gives way to a value that is there, unless that is an empty object. -/
  yields : Bool := false
  deriving Repr, BEq, Inhabited

/-- The value of a variable's text. A text that stands for nothing, without being a document, yields. -/
def Manner.leaf (m : Manner) : Option String → Except Problem Leaf
  | none => .ok { value := .null }
  | some text =>
    if text = "" then .ok { value := m.value text, yields := m.nullText = some text }
    else match Json.read .usual text with
      | .ok v => .ok { value := v }
      | .error .malformed => .ok { value := m.value text, yields := m.nullText = some text }
      | .error .tooDeep => .error .tooDeep

def putLeaf (leaf : Leaf) (key : String) (fields : List (String × Value)) : List (String × Value) :=
  match Entries.get? key fields with
  | none => Entries.put key leaf.value fields
  | some (.object []) => Entries.put key leaf.value fields
  | some _ => if leaf.yields then fields else Entries.put key leaf.value fields

/-- Puts a leaf at the end of a path of keys. Objects on the way are made where there is nothing; a path
that meets another value ends there and changes nothing. -/
def putAt (leaf : Leaf) : List String → List (String × Value) → List (String × Value)
  | [], fields => fields
  | [key], fields => putLeaf leaf key fields
  | key :: keys, fields =>
    match Entries.get? key fields with
    | none => Entries.put key (.object (putAt leaf keys [])) fields
    | some (.object inner) => Entries.put key (.object (putAt leaf keys inner)) fields
    | some _ => fields

/-- The keys in a text with a delimiter between them, which separates at most `splits` times. -/
def keysIn (delimiter : String) (splits : Option Nat) (s : String) : List String :=
  let keys := s.splitOn delimiter
  match splits with
  | none => keys
  | some n =>
    if n < keys.length then keys.take n ++ [String.intercalate delimiter (keys.drop n)] else keys

/-- What follows one of several starts of a text: the first of them with which it starts. -/
def afterStart? (starts : List String) (s : String) : Option String :=
  (starts.find? fun start => s.startsWith start).map fun start => (s.drop start.length).toString

def Manner.nested (m : Manner) (name : Name) (vars : Variables) :
    Except Problem (List (String × Value)) :=
  match m.delimiter with
  | none => .ok []
  | some d => vars.foldlM (fun fields (key, text) =>
      match afterStart? [m.outerKey name ++ d, m.ownKey name ++ d] key with
      | none => .ok fields
      | some rest => do
        if let some p := m.keysProblem then throw p
        return putAt (← m.leaf text) (keysIn d m.splits rest) fields) []

end ApprovalFlow.Settings
