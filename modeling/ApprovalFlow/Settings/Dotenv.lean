import ApprovalFlow.Entries
import ApprovalFlow.Text.Blank

/-!
# Assignments in a file

A file of assignments `NAME=value`, one to a line. A line may start with `export`, a value may stand
between single or double quotes and then span lines, and a number sign starts a comment at the start of
a line or after a blank. A name without an equals sign is given no value. Values may refer to others as
`${NAME}` or `${NAME:-default}`. Lines that are no assignment are skipped. A mark of byte order may stand
before all of it.
-/

namespace ApprovalFlow.Settings

open Text (isBlank)

/-- The characters with every line's end as one line feed, however it was marked. -/
def unifyLineEnds : List Char → List Char
  | [] => []
  | '\r' :: '\n' :: rest => '\n' :: unifyLineEnds rest
  | '\r' :: rest => '\n' :: unifyLineEnds rest
  | c :: rest => c :: unifyLineEnds rest

def isLineEnd (c : Char) : Bool := c == '\n'

def isInlineBlank (c : Char) : Bool := isBlank c && !isLineEnd c

def skipInline (cs : List Char) : List Char := cs.dropWhile isInlineBlank

def afterLineEnd? : List Char → Option (List Char)
  | [] => some []
  | c :: rest => if isLineEnd c then some rest else none

def skipLine (cs : List Char) : List Char :=
  (cs.dropWhile (fun c => !isLineEnd c)).drop 1

def skipExport (cs : List Char) : List Char :=
  match cs with
  | 'e' :: 'x' :: 'p' :: 'o' :: 'r' :: 't' :: c :: rest =>
    if isInlineBlank c then skipInline rest else cs
  | _ => cs

/-- The text up to the closing quote, and what follows it. What stands after a backslash does not close
the text. -/
def readQuoted (quote : Char) : List Char → Option (List Char × List Char)
  | [] => none
  | ['\\'] => none
  | '\\' :: c :: rest =>
    (readQuoted quote rest).map fun (text, rest) => ('\\' :: c :: text, rest)
  | c :: rest =>
    if c = quote then some ([], rest)
    else (readQuoted quote rest).map fun (text, rest) => (c :: text, rest)

def escaped? : Char → Option Char
  | '\\' => some '\\'
  | '\'' => some '\''
  | '"' => some '"'
  | 'a' => some '\x07'
  | 'b' => some '\x08'
  | 'f' => some '\x0c'
  | 'n' => some '\n'
  | 'r' => some '\r'
  | 't' => some '\t'
  | 'v' => some '\x0b'
  | _ => none

/-- The text with those of its escapes undone that `known` names. -/
def unescape (known : Char → Option Char) : List Char → List Char
  | '\\' :: c :: rest =>
    match known c with
    | some d => d :: unescape known rest
    | none => '\\' :: unescape known (c :: rest)
  | c :: rest => c :: unescape known rest
  | [] => []

def escapedInSingle? (c : Char) : Option Char :=
  if c = '\\' ∨ c = '\'' then some c else none

/-- The text up to a comment: a number sign after a blank. -/
def beforeComment : List Char → List Char
  | [] => []
  | [c] => [c]
  | c :: d :: rest => if isBlank c && d == '#' then [] else c :: beforeComment (d :: rest)

/-- A value without quotes: the rest of the line without a comment and the blanks around it. -/
def readPlain (cs : List Char) : List Char × List Char :=
  let line := cs.takeWhile (fun c => !isLineEnd c)
  (Text.stripChars (beforeComment line), cs.dropWhile (fun c => !isLineEnd c))

/-- A value, after its equals sign. Blanks may stand before it; of a value without quotes they are read
too, since a comment starts after one. -/
def readAssigned (cs : List Char) : Option (List Char × List Char) :=
  match skipInline cs with
  | '\'' :: rest => (readQuoted '\'' rest).map fun (t, rest) => (unescape escapedInSingle? t, rest)
  | '"' :: rest => (readQuoted '"' rest).map fun (t, rest) => (unescape escaped? t, rest)
  | _ => some (readPlain cs)

/-- A name, which may stand between single quotes; a comment has none. -/
def readName : List Char → Option (Option (List Char) × List Char)
  | '#' :: rest => some (none, '#' :: rest)
  | '\'' :: rest =>
    let name := rest.takeWhile (· != '\'')
    match rest.dropWhile (· != '\'') with
    | '\'' :: rest => if name.isEmpty then none else some (some name, rest)
    | _ => none
  | cs =>
    let name := cs.takeWhile fun c => !(c == '=' || c == '#' || isBlank c)
    if name.isEmpty then none
    else some (some name, cs.dropWhile fun c => !(c == '=' || c == '#' || isBlank c))

def skipComment (cs : List Char) : List Char :=
  match skipInline cs with
  | '#' :: rest => rest.dropWhile (fun c => !isLineEnd c)
  | _ => cs

/-- One line's assignment and what follows the line. A line that goes wrong is skipped from there. -/
def readLine (cs : List Char) : Option (String × Option String) × List Char :=
  let cs := skipExport cs
  match readName cs with
  | none => (none, skipLine cs)
  | some (name, rest) =>
    let rest := skipInline rest
    let assigned := match rest with
      | '=' :: rest =>
        match readAssigned rest with
        | some (v, rest) => Except.ok (some v, rest)
        | none => .error rest
      | rest => .ok (none, rest)
    match assigned with
    | .error rest => (none, skipLine rest)
    | .ok (v, rest) =>
      let rest := skipComment rest
      match afterLineEnd? (skipInline rest) with
      | none => (none, skipLine rest)
      | some rest => (name.map fun n => (String.ofList n, v.map String.ofList), rest)

/-- The assignments in order. Each line takes a character, so the length is fuel enough. -/
def readLines : Nat → List Char → List (String × Option String)
  | 0, _ => []
  | fuel + 1, cs =>
    match cs.dropWhile isBlank with
    | [] => []
    | cs =>
      match readLine cs with
      | (some a, rest) => a :: readLines fuel rest
      | (none, rest) => readLines fuel rest

/-- A reference after its dollar sign and opening brace: the name, the default and what follows. -/
def readReference (cs : List Char) : Option (List Char × List Char × List Char) :=
  let name := cs.takeWhile fun c => !(c == '\x7d' || c == ':')
  match cs.dropWhile fun c => !(c == '\x7d' || c == ':') with
  | ':' :: '-' :: rest =>
    match rest.dropWhile (· != '\x7d') with
    | _ :: after => some (name, rest.takeWhile (· != '\x7d'), after)
    | [] => none
  | '\x7d' :: after => some (name, [], after)
  | _ => none

/-- The text with its references replaced by what `value` gives for them. -/
def expand (value : String → Option (Option String)) : Nat → List Char → List Char
  | 0, cs => cs
  | _, [] => []
  | fuel + 1, '$' :: '\x7b' :: rest =>
    match readReference rest with
    | some (name, fallback, after) =>
      let shown := match value (String.ofList name) with
        | some v => (v.getD "").toList
        | none => fallback
      shown ++ expand value fuel after
    | none => '$' :: expand value fuel ('\x7b' :: rest)
  | fuel + 1, c :: rest => c :: expand value fuel rest

def skipMark : List Char → List Char
  | '\ufeff' :: rest => rest
  | cs => cs

/-- The value of each name after the whole file: the last one given, with its references replaced by
what had been assigned before, or else by the variables of `environment`. -/
def assignments (environment : Entries String String) (file : String) :
    Entries String (Option String) :=
  let cs := unifyLineEnds (skipMark file.toList)
  (readLines (cs.length + 1) cs).foldl (fun known (name, v) =>
    let value (n : String) : Option (Option String) :=
      (Entries.get? n known).or ((Entries.get? n environment).map some)
    let v := v.map fun s => String.ofList (expand value s.length s.toList)
    Entries.put name v known) []

end ApprovalFlow.Settings
