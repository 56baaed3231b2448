import ApprovalFlow.Entries
import ApprovalFlow.Text.Digits

/-!
# Options of the page-change program

The program takes `--page` and `--text` with a value, of which the text is required, and `--deny`. Long
options may be shortened as far as they stay unambiguous, and a value may follow an equals sign. Words that
start with a dash are options, unless they look like a negative number or hold a blank. Two dashes as the
value after an equals sign are no value but only part it from the option.
-/

namespace ApprovalFlow.PageChange

inductive Given where
  | text (s : String)
  | nothing
  deriving Repr, DecidableEq, Inhabited

def Given.ofValue (cs : List Char) : Given :=
  if cs = ['-', '-'] then nothing else text (String.ofList cs)

structure Options where
  page : Given := .text "Main"
  text : Given
  deny : Bool := false
  deriving Repr, DecidableEq, Inhabited

inductive Refusal where
  | usage
  | help
  deriving Repr, DecidableEq

def Refusal.code : Refusal → Nat
  | usage => 2
  | help => 0

inductive Switch where
  | help
  | page
  | text
  | deny
  deriving Repr, DecidableEq

def spellings : List (List Char × Switch) :=
  [("-h".toList, .help), ("--help".toList, .help), ("--page".toList, .page),
    ("--text".toList, .text), ("--deny".toList, .deny)]

inductive Word where
  | plain (s : String)
  | separator
  | switch (x : Switch) (value : Option (List Char))
  /-- The letter for help with others run onto it, or after an equals sign. -/
  | letters (others : List Char)
  | unknown
  deriving Repr, DecidableEq

/-- Whether a word reads as a negative number, in the digits of any script. A line feed may end it. -/
def isNegativeNumber : List Char → Bool
  | '-' :: cs =>
    let cs := if cs.getLast? = some '\n' then cs.dropLast else cs
    let whole := cs.takeWhile Text.isDecimalDigit
    match cs.dropWhile Text.isDecimalDigit with
    | [] => !whole.isEmpty
    | '.' :: fraction => !fraction.isEmpty && fraction.all Text.isDecimalDigit
    | _ => false
  | _ => false

def splitValue (cs : List Char) : List Char × Option (List Char) :=
  match cs.dropWhile (· != '=') with
  | _ :: value => (cs.takeWhile (· != '='), some value)
  | [] => (cs, none)

/-- The options that a word may be short for, each with the value that comes with it. -/
def matching (cs : List Char) : List Word :=
  match cs with
  | '-' :: '-' :: _ =>
    let (name, value) := splitValue cs
    (spellings.filter fun (s, _) => name.isPrefixOf s).map fun (_, x) => .switch x value
  | '-' :: c :: rest =>
    spellings.filterMap fun (s, x) =>
      if s == ['-', c] then some (.letters rest)
      else if cs.isPrefixOf s then some (.switch x none)
      else none
  | _ => []

def classify (s : String) : Except Refusal Word :=
  let cs := s.toList
  match cs with
  | '-' :: _ :: _ =>
    let (name, value) := splitValue cs
    match spellings.lookup cs, spellings.lookup name with
    | some x, _ => .ok (.switch x none)
    | none, some x =>
      match name, value with
      | ['-', _], some letters => .ok (.letters letters)
      | _, _ => .ok (.switch x value)
    | none, none =>
      match matching cs with
      | [w] => .ok w
      | _ :: _ :: _ => .error .usage
      | [] => .ok (if isNegativeNumber cs || cs.contains ' ' then .plain s else .unknown)
  | _ => .ok (.plain s)

/-- What the words are. After a separator all are plain. -/
def classifyAll : List String → Except Refusal (List Word)
  | [] => .ok []
  | "--" :: rest => .ok (.separator :: rest.map .plain)
  | s :: rest => do return (← classify s) :: (← classifyAll rest)

structure Reading where
  page : Given := .text "Main"
  text : Option Given := none
  deny : Bool := false
  /-- Whether a word was of no use. -/
  surplus : Bool := false
  deriving Repr, DecidableEq

def Reading.give (r : Reading) (x : Switch) (value : Given) : Reading :=
  match x with
  | .page => { r with page := value }
  | .text => { r with text := some value }
  | _ => r

def takesValue : Switch → Bool
  | .page => true
  | .text => true
  | _ => false

/-- What letters run onto the letter for help lead to. There is no other one-letter option, so they can only
repeat it. -/
def runOn (others : List Char) : Refusal :=
  if others ≠ [] ∧ others.all (· == 'h') then .help else .usage

def readWords (r : Reading) : List Word → Except Refusal Reading
  | [] => .ok r
  | .plain _ :: rest => readWords { r with surplus := true } rest
  | .separator :: rest => readWords { r with surplus := true } rest
  | .unknown :: rest => readWords { r with surplus := true } rest
  | .letters others :: _ => .error (runOn others)
  | .switch x value :: rest =>
    if takesValue x then
      match value, rest with
      | some v, rest => readWords (r.give x (.ofValue v)) rest
      | none, .plain v :: rest => readWords (r.give x (.text v)) rest
      | none, _ => .error .usage
    else match value with
      | none => if x = .help then .error .help else readWords { r with deny := true } rest
      | some _ => .error .usage

def Options.ofWords (words : List String) : Except Refusal Options := do
  let r ← readWords {} (← classifyAll words)
  match r.text with
  | some text => if r.surplus then .error .usage else .ok ⟨r.page, text, r.deny⟩
  | none => .error .usage

end ApprovalFlow.PageChange
