import ApprovalFlow.Text.Digits

/-!
# Encodings

How the bytes of a file are taken for characters. Texts are kept as UTF-8; `Encoding.read` says what such a
text is read as when its bytes are taken for those of another encoding.
-/

namespace ApprovalFlow.Text

inductive Encoding where
  | utf8
  /-- UTF-8 with a mark of byte order in front, which is no character of the text. -/
  | markedUtf8
  /-- Two bytes or four to a character, after a mark that says in which order. -/
  | utf16
  | ascii
  | latin1
  | latin9
  | windows1252
  deriving Repr, DecidableEq, Inhabited

namespace Encoding

/-- The names of each encoding: lower case, with one underscore between the parts. -/
def names : List (Encoding × List String) := [
  (utf8, ["utf_8", "utf8", "utf", "u8", "cp65001"]),
  (markedUtf8, ["utf_8_sig"]),
  (utf16, ["utf_16", "utf16", "u16"]),
  (ascii, ["ascii", "us_ascii", "us", "646", "iso646_us", "iso_ir_6", "cp367", "ibm367", "csascii"]),
  (latin1, ["latin_1", "latin1", "latin", "l1", "iso8859_1", "iso_8859_1", "iso8859", "8859", "cp819",
    "ibm819", "iso_ir_100", "csisolatin1"]),
  (latin9, ["latin9", "l9", "iso8859_15", "iso_8859_15"]),
  (windows1252, ["cp1252", "windows_1252", "1252"])]

def isNameChar (c : Char) : Bool := c.isAlphanum || c == '.'

def nameParts (s : String) : List String :=
  ((s.map fun c => if isNameChar c then c.toLower else ' ').splitOn " ").filter (· != "")

/-- The encoding of a name, in any case and with any punctuation between its parts. -/
def ofName? (s : String) : Option Encoding :=
  let name := String.intercalate "_" (nameParts s)
  (names.find? fun (_, known) => known.contains name).map (·.1)

def latin9Departures : List (Nat × Nat) :=
  [(0xa4, 0x20ac), (0xa6, 0x160), (0xa8, 0x161), (0xb4, 0x17d), (0xb8, 0x17e), (0xbc, 0x152),
    (0xbd, 0x153), (0xbe, 0x178)]

/-- The characters of Windows-1252 from byte 80 to byte 9f; a zero stands for none. -/
def windows1252Upper : List Nat :=
  [0x20ac, 0, 0x201a, 0x192, 0x201e, 0x2026, 0x2020, 0x2021, 0x2c6, 0x2030, 0x160, 0x2039, 0x152, 0,
    0x17d, 0, 0, 0x2018, 0x2019, 0x201c, 0x201d, 0x2022, 0x2013, 0x2014, 0x2dc, 0x2122, 0x161, 0x203a,
    0x153, 0, 0x17e, 0x178]

/-- The code point of a byte where each byte is a character, if it is one. -/
def codeOf? (e : Encoding) (byte : Nat) : Option Nat :=
  match e with
  | ascii => if byte < 0x80 then some byte else none
  | latin9 => some (((latin9Departures.find? fun d => d.1 == byte).map (·.2)).getD byte)
  | windows1252 =>
    if 0x80 ≤ byte ∧ byte < 0xa0 then (windows1252Upper[byte - 0x80]?).filter (· != 0) else some byte
  | _ => some byte

def shownName : Encoding → String
  | utf8 => "utf-8"
  | markedUtf8 => "utf-8"
  | utf16 => "utf-16-le"
  | ascii => "ascii"
  | latin1 => "latin-1"
  | latin9 => "charmap"
  | windows1252 => "charmap"

def objection : Encoding → String
  | utf16 => "truncated data"
  | ascii => "ordinal not in range(128)"
  | _ => "character maps to <undefined>"

inductive Problem where
  | badByte (encoding : Encoding) (byte position : Nat)
  /-- The mark that says in which order bytes stand is missing. -/
  | unmarked
  deriving Repr, DecidableEq, Inhabited

def Problem.message : Problem → String
  | badByte encoding byte position =>
    "'" ++ encoding.shownName ++ "' codec can't decode byte 0x" ++ String.ofList (hex 2 byte) ++
      " in position " ++ toString position ++ ": " ++ encoding.objection
  | unmarked => "UTF-16 stream does not start with BOM"

def readBytes (e : Encoding) : Nat → List Nat → Except Problem (List Char)
  | _, [] => .ok []
  | position, byte :: rest =>
    match e.codeOf? byte with
    | none => .error (.badByte e byte position)
    | some code => (readBytes e (position + 1) rest).map (Char.ofNat code :: ·)

/-- Bytes of UTF-8 never start with a mark of UTF-16. Half a character at the end is found first. -/
def readPairs : List Nat → Except Problem (List Char)
  | [] => .ok []
  | byte :: rest =>
    if rest.length % 2 = 0 then .error (.badByte utf16 ((byte :: rest).getLast (by simp)) rest.length)
    else .error .unmarked

/-- What a text is read as when the bytes of its UTF-8 are taken for those of an encoding. -/
def read (e : Encoding) (s : String) : Except Problem String :=
  let bytes := s.toUTF8.toList.map UInt8.toNat
  match e with
  | utf8 => .ok s
  | markedUtf8 =>
    match s.toList with
    | '\ufeff' :: rest => .ok (String.ofList rest)
    | _ => .ok s
  | utf16 => (readPairs bytes).map String.ofList
  | e => (readBytes e 0 bytes).map String.ofList

end Encoding

end ApprovalFlow.Text
