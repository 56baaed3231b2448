import ApprovalFlow.Entries
import ApprovalFlow.Limits

/-!
# Reading JSON

The value of a JSON document. Beside the standard's documents the reader takes the three names for
numbers that are not finite. A name given twice in an object keeps its first place and its last value.
Escapes for the two halves of a surrogate pair stand for one character; a half on its own stands for the
replacement character. A reader has limits: how deeply brackets are nested, and how many digits a whole
number has.
-/

namespace ApprovalFlow.Json

inductive Problem where
  | malformed
  | tooDeep
  deriving Repr, DecidableEq, Inhabited

def isBlank (c : Char) : Bool := c == ' ' || c == '\t' || c == '\n' || c == '\r'

def skip (cs : List Char) : List Char := cs.dropWhile isBlank

def shortEscape? : Char → Option Nat
  | '"' => some 0x22
  | '\\' => some 0x5c
  | '/' => some 0x2f
  | 'b' => some 8
  | 'f' => some 0xc
  | 'n' => some 0xa
  | 'r' => some 0xd
  | 't' => some 9
  | _ => none

/-- The codes of a text up to its closing quote, and what follows the quote. -/
def readUnits : List Char → Option (List Nat × List Char)
  | [] => none
  | '"' :: rest => some ([], rest)
  | '\\' :: 'u' :: a :: b :: c :: d :: rest => do
    let n ← Text.hexNumber? [a, b, c, d]
    let (units, rest) ← readUnits rest
    some (n :: units, rest)
  | '\\' :: c :: rest => do
    let n ← shortEscape? c
    let (units, rest) ← readUnits rest
    some (n :: units, rest)
  | c :: rest =>
    if c.toNat < 0x20 ∨ c = '\\' then none
    else do
      let (units, rest) ← readUnits rest
      some (c.toNat :: units, rest)

def isFirstHalf (n : Nat) : Bool := 0xd800 ≤ n && n < 0xdc00

def isSecondHalf (n : Nat) : Bool := 0xdc00 ≤ n && n < 0xe000

def loneChar (n : Nat) : Char :=
  if isFirstHalf n || isSecondHalf n then '\ufffd' else Char.ofNat n

/-- The characters of codes, in which a surrogate pair is one character. -/
def joinUnits : List Nat → List Char
  | [] => []
  | [n] => [loneChar n]
  | n :: m :: rest =>
    if isFirstHalf n && isSecondHalf m then
      Char.ofNat (0x10000 + (n - 0xd800) * 0x400 + (m - 0xdc00)) :: joinUnits rest
    else loneChar n :: joinUnits (m :: rest)

/-- A text, after its opening quote. -/
def readText (cs : List Char) : Option (String × List Char) :=
  (readUnits cs).map fun (units, rest) => (String.ofList (joinUnits units), rest)

/-- The digits at the start; there has to be one. -/
def readDigits (cs : List Char) : Option (List Char × List Char) :=
  let ds := cs.takeWhile Text.isDigit
  if ds.isEmpty then none else some (ds, cs.dropWhile Text.isDigit)

/-- The whole part of a number: a zero stands alone. -/
def readWhole : List Char → Option (List Char × List Char)
  | '0' :: rest => some (['0'], rest)
  | cs => readDigits cs

def readFraction : List Char → List Char × List Char
  | '.' :: rest => (readDigits rest).getD ([], '.' :: rest)
  | cs => ([], cs)

def readExponent (cs : List Char) : Option Int × List Char :=
  match cs with
  | e :: rest =>
    if e = 'e' ∨ e = 'E' then
      let (negative, digits) := match rest with
        | '-' :: r => (true, r)
        | '+' :: r => (false, r)
        | r => (false, r)
      match readDigits digits with
      | some (ds, rest) =>
        let n : Int := Text.decimalNumber ds
        (some (if negative then -n else n), rest)
      | none => (none, cs)
    else (none, cs)
  | [] => (none, cs)

def readUnsigned (limits : Limits) (negative : Bool) (cs : List Char) :
    Option (Value × List Char) := do
  let (whole, rest) ← readWhole cs
  let (fraction, rest) := readFraction rest
  let (exponent, rest) := readExponent rest
  let n := Text.decimalNumber (whole ++ fraction)
  if fraction.isEmpty && exponent.isNone then
    if limits.digits < whole.length then none
    else some (.int (if negative then -(n : Int) else n), rest)
  else
    some (.float (.ofScientific negative n (exponent.getD 0 - fraction.length)), rest)

def afterWord : List Char → List Char → Option (List Char)
  | [], cs => some cs
  | w :: word, c :: cs => if w = c then afterWord word cs else none
  | _ :: _, [] => none

def readScalar (limits : Limits) (cs : List Char) : Option (Value × List Char) :=
  let word (name : String) (v : Value) := (afterWord name.toList cs).map fun rest => (v, rest)
  match cs with
  | 'n' :: _ => word "null" .null
  | 't' :: _ => word "true" (.bool true)
  | 'f' :: _ => word "false" (.bool false)
  | 'N' :: _ => word "NaN" (.float .nan)
  | 'I' :: _ => word "Infinity" (.float (.infinity false))
  | '-' :: 'I' :: _ => word "-Infinity" (.float (.infinity true))
  | '-' :: rest => readUnsigned limits true rest
  | _ => readUnsigned limits false cs

def orMalformed {α : Type} : Option α → Except Problem α
  | some a => .ok a
  | none => .error .malformed

mutual

/-- A value at the start, with fewer than `fuel` brackets and items inside, of which `depth` may be open
at a time. -/
def readValue (limits : Limits) : Nat → Nat → List Char → Except Problem (Value × List Char)
  | 0, _, _ => .error .malformed
  | _ + 1, _, '"' :: rest => (orMalformed (readText rest)).map fun (s, rest) => (.text s, rest)
  | _ + 1, 0, '[' :: _ => .error .tooDeep
  | _ + 1, 0, '{' :: _ => .error .tooDeep
  | fuel + 1, depth + 1, '[' :: rest =>
    match skip rest with
    | ']' :: rest => .ok (.list [], rest)
    | rest => (readItems limits fuel depth rest).map fun (items, rest) => (.list items, rest)
  | fuel + 1, depth + 1, '{' :: rest =>
    match skip rest with
    | '}' :: rest => .ok (.object [], rest)
    | rest => (readFields limits fuel depth rest).map fun (fields, rest) =>
      (.object (Entries.ofList fields), rest)
  | _ + 1, _, cs => orMalformed (readScalar limits cs)

def readItems (limits : Limits) : Nat → Nat → List Char → Except Problem (List Value × List Char)
  | 0, _, _ => .error .malformed
  | fuel + 1, depth, cs => do
    let (v, rest) ← readValue limits fuel depth cs
    match skip rest with
    | ',' :: rest =>
      let (items, rest) ← readItems limits fuel depth (skip rest)
      return (v :: items, rest)
    | ']' :: rest => return ([v], rest)
    | _ => throw .malformed

def readFields (limits : Limits) :
    Nat → Nat → List Char → Except Problem (List (String × Value) × List Char)
  | 0, _, _ => .error .malformed
  | fuel + 1, depth, '"' :: rest => do
    let (name, rest) ← orMalformed (readText rest)
    match skip rest with
    | ':' :: rest =>
      let (v, rest) ← readValue limits fuel depth (skip rest)
      match skip rest with
      | ',' :: rest =>
        let (fields, rest) ← readFields limits fuel depth (skip rest)
        return ((name, v) :: fields, rest)
      | '}' :: rest => return ([(name, v)], rest)
      | _ => throw .malformed
    | _ => throw .malformed
  | _ + 1, _, _ => .error .malformed

end

/-- The value of a document. Each bracket and item takes a character, so the length is fuel enough. -/
def read (limits : Limits) (s : String) : Except Problem Value := do
  let cs := skip s.toList
  let (v, rest) ← readValue limits (cs.length + 1) limits.depth cs
  if (skip rest).isEmpty then return v else throw .malformed

end ApprovalFlow.Json
