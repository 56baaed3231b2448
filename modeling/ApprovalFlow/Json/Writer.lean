import ApprovalFlow.Limits

/-!
# Writing JSON

A value as a JSON document, on one line or indented. Tuples are written as arrays, states as their
names, and the engine's other kinds of thing as the text that shows them. Beyond the quote, the
backslash and the control characters, a style may escape all that is not printable ASCII. A value that there
is no room for is not written (`dump`).
-/

namespace ApprovalFlow.Json

structure Style where
  /-- Whether only printable ASCII is written as it is. -/
  ascii : Bool
  /-- The indentation of each level, or nothing for a document on one line. -/
  indent : Option Nat
  deriving Repr, DecidableEq

/-- One line with all characters but the control characters as they are. -/
def Style.line : Style := ⟨false, none⟩

def Style.asciiLine : Style := ⟨true, none⟩

def Style.indented : Style := ⟨true, some 2⟩

def unitEscape (n : Nat) : List Char := '\\' :: 'u' :: Text.hex 4 n

def escapeChar (ascii : Bool) (c : Char) : List Char :=
  if c = '"' ∨ c = '\\' then ['\\', c]
  else if c = '\n' then ['\\', 'n']
  else if c = '\r' then ['\\', 'r']
  else if c = '\t' then ['\\', 't']
  else if c = '\x08' then ['\\', 'b']
  else if c = '\x0c' then ['\\', 'f']
  else if c.toNat < 0x20 then unitEscape c.toNat
  else if ascii && 0x7e < c.toNat then
    if c.toNat < 0x10000 then unitEscape c.toNat
    else
      let n := c.toNat - 0x10000
      unitEscape (0xd800 + n / 0x400) ++ unitEscape (0xdc00 + n % 0x400)
  else [c]

def writeText (ascii : Bool) (s : String) : List Char :=
  '"' :: s.toList.flatMap (escapeChar ascii) ++ ['"']

def writeFloat : Decimal → List Char
  | .nan => "NaN".toList
  | .infinity false => "Infinity".toList
  | .infinity true => "-Infinity".toList
  | x => x.toText.toList

/-- The break before an item at a depth: nothing on one line. -/
def lineBreak (style : Style) (depth : Nat) : List Char :=
  match style.indent with
  | none => []
  | some width => '\n' :: List.replicate (width * depth) ' '

def separator (style : Style) (depth : Nat) : List Char :=
  match style.indent with
  | none => [',', ' ']
  | some _ => ',' :: lineBreak style depth

mutual

def writeAt (style : Style) (depth : Nat) : Value → List Char
  | .null => "null".toList
  | .bool true => "true".toList
  | .bool false => "false".toList
  | .int n => (toString n).toList
  | .float x => writeFloat x
  | .text s => writeText style.ascii s
  | .list items => writeItems style depth items
  | .tuple items => writeItems style depth items
  | .object [] => ['{', '}']
  | .object (f :: rest) =>
    '{' :: lineBreak style (depth + 1) ++ writeField style (depth + 1) f ++
      writeMoreFields style (depth + 1) rest ++ lineBreak style depth ++ ['}']
  | .state w => writeText style.ascii w.name
  | v => writeText style.ascii v.display

def writeItems (style : Style) (depth : Nat) : List Value → List Char
  | [] => ['[', ']']
  | v :: rest =>
    '[' :: lineBreak style (depth + 1) ++ writeAt style (depth + 1) v ++
      writeMore style (depth + 1) rest ++ lineBreak style depth ++ [']']

def writeMore (style : Style) (depth : Nat) : List Value → List Char
  | [] => []
  | v :: rest => separator style depth ++ writeAt style depth v ++ writeMore style depth rest

def writeField (style : Style) (depth : Nat) : String × Value → List Char
  | (name, v) => writeText style.ascii name ++ [':', ' '] ++ writeAt style depth v

def writeMoreFields (style : Style) (depth : Nat) : List (String × Value) → List Char
  | [] => []
  | f :: rest => separator style depth ++ writeField style depth f ++ writeMoreFields style depth rest

end

/-- The text of a document, however long and deep. -/
def write (style : Style) (v : Value) : String :=
  String.ofList (writeAt style 0 v)

def dump (limits : Limits) (style : Style) (v : Value) : Except Excess String :=
  v.within limits (write style)

end ApprovalFlow.Json
