import ApprovalFlow.Entries
import ApprovalFlow.Failure
import ApprovalFlow.Limits
import ApprovalFlow.Number.Dyadic

/-!
# Message templates

A message may have places for arguments, each marked by a percent sign: flags, a width and a precision
may follow it, and a letter that says how the argument is shown. Two percent signs next to each other stand
for one.
Arguments are used in order, and all of them have to be used. If a single collection is given in place of a
list of arguments, it need not be used, and a name in parentheses asks for what the collection holds under
that name.
-/

namespace ApprovalFlow.Template

open Text (padLeft digits)

/-- The arguments that are left, and the collection that was given in place of a list of them. -/
structure Arguments where
  left : List Value
  source : Option Value := none
  deriving Repr, BEq, Inhabited

namespace Arguments

def next? (args : Arguments) : Option (Value × Arguments) :=
  match args.left with
  | [] => none
  | v :: rest => some (v, { args with left := rest })

/-- Whether an argument is left that should have been used. -/
def surplus (args : Arguments) : Bool := args.source.isNone && !args.left.isEmpty

/-- A list of arguments; a single object in it stands for itself. -/
def ofList : List Value → Arguments
  | [.object fields] => ⟨[.object fields], if fields.isEmpty then none else some (.object fields)⟩
  | values => ⟨values, none⟩

def ofValue : Value → Arguments
  | .tuple items => ⟨items, none⟩
  | .list items => if items.isEmpty then ⟨[], none⟩ else ⟨[.list items], some (.list items)⟩
  | .object fields => if fields.isEmpty then ⟨[], none⟩ else ⟨[.object fields], some (.object fields)⟩
  | v => ⟨if v.isNothing then [] else [v], none⟩

end Arguments

inductive Problem where
  | tooFewArguments
  | tooManyArguments
  | noFields
  | noField (name : String)
  | noNames
  | incompleteName
  | starNotInteger
  | starTooLarge (precision : Bool)
  | countTooLarge (precision : Bool)
  | notANumber (conversion : Char) (typeName : String)
  | notAnInteger (conversion : Char) (typeName : String)
  | notReal (typeName : String)
  | notACharacter
  | incomplete
  | unsupported (conversion : Char) (index : Nat)
  | notFinite (x : Decimal)
  | characterOutOfRange
  | tooLarge
  | precisionTooLarge
  | noRoom
  | excess (x : Excess)
  deriving Repr, DecidableEq

namespace Problem

def kind : Problem → FailureKind
  | incomplete | incompleteName | unsupported .. | notFinite .nan => .badValue
  | countTooLarge _ | excess (.digits _) => .badValue
  | starTooLarge _ | notFinite _ | characterOutOfRange | tooLarge | precisionTooLarge => .overflow
  | noField _ => .missingKey
  | noRoom => .memory
  | excess .depth => .exhausted
  | _ => .wrongType

def message : Problem → String
  | tooFewArguments => "not enough arguments for format string"
  | tooManyArguments => "not all arguments converted during string formatting"
  | noFields => "format requires a mapping"
  | noField name => name
  | noNames => "list indices must be integers or slices, not str"
  | incompleteName => "incomplete format key"
  | starNotInteger => "* wants int"
  | starTooLarge precision =>
    "Python int too large to convert to C " ++ (if precision then "int" else "ssize_t")
  | countTooLarge precision => (if precision then "precision" else "width") ++ " too big"
  | notANumber c typeName => s!"%{c} format: a real number is required, not {typeName}"
  | notAnInteger c typeName => s!"%{c} format: an integer is required, not {typeName}"
  | notReal typeName => s!"must be real number, not {typeName}"
  | notACharacter => "%c requires int or char"
  | incomplete => "incomplete format"
  | unsupported c index =>
    let code := String.ofList (digits 16 c.toNat)
    let shown := if 0x1f ≤ c.toNat ∧ c.toNat < 0x7f then c else '?'
    s!"unsupported format character '{shown}' (0x{code}) at index {index}"
  | notFinite .nan => "cannot convert float NaN to integer"
  | notFinite _ => "cannot convert float infinity to integer"
  | characterOutOfRange => "%c arg not in range(0x110000)"
  | tooLarge => "int too large to convert to float"
  | precisionTooLarge => "precision too large"
  | noRoom => ""
  | excess x => x.message "getting the repr of an object"

end Problem

/-- What stands between a percent sign and its letter. -/
structure Spec where
  left : Bool := false
  plus : Bool := false
  blank : Bool := false
  alternate : Bool := false
  zero : Bool := false
  width : Nat := 0
  precision : Option Nat := none
  deriving Repr, DecidableEq

def readFlags (spec : Spec) : List Char → Spec × List Char
  | '-' :: rest => readFlags { spec with left := true } rest
  | '+' :: rest => readFlags { spec with plus := true } rest
  | ' ' :: rest => readFlags { spec with blank := true } rest
  | '#' :: rest => readFlags { spec with alternate := true } rest
  | '0' :: rest => readFlags { spec with zero := true } rest
  | rest => (spec, rest)

/-- A number at the start: digits, or a star for the next argument. A precision is held in 32 bits, a width
in 64. -/
def readCount (precision : Bool) (cs : List Char) (args : Arguments) :
    Except Problem (Option Int × List Char × Arguments) :=
  let limit : Int := if precision then 2147483648 else 9223372036854775808
  match cs with
  | '*' :: rest =>
    match args.next? with
    | some (.int n, args) =>
      if -limit ≤ n ∧ n < limit then .ok (some n, rest, args) else .error (.starTooLarge precision)
    | some (.bool b, args) => .ok (some (if b then 1 else 0), rest, args)
    | some _ => .error .starNotInteger
    | none => .error .tooFewArguments
  | _ =>
    let ds := cs.takeWhile Text.isDigit
    let n : Int := Text.decimalNumber ds
    if limit ≤ n then .error (.countTooLarge precision)
    else .ok (if ds.isEmpty then none else some n, cs.dropWhile Text.isDigit, args)

/-- A width: a negative one asks for blanks on the right. -/
def readWidth (spec : Spec) (cs : List Char) (args : Arguments) :
    Except Problem (Spec × List Char × Arguments) := do
  let (n, cs, args) ← readCount false cs args
  match n with
  | none => .ok (spec, cs, args)
  | some n =>
    if n < 0 then .ok ({ spec with left := true, width := n.natAbs }, cs, args)
    else .ok ({ spec with width := n.toNat }, cs, args)

/-- A precision after a point; none after the point is zero. -/
def readPrecision (spec : Spec) (cs : List Char) (args : Arguments) :
    Except Problem (Spec × List Char × Arguments) :=
  match cs with
  | '.' :: rest => do
    let (n, cs, args) ← readCount true rest args
    .ok ({ spec with precision := some (n.getD 0).toNat }, cs, args)
  | _ => .ok (spec, cs, args)

/-- A length letter, which says nothing. -/
def skipLength : List Char → List Char
  | 'h' :: rest => rest
  | 'l' :: rest => rest
  | 'L' :: rest => rest
  | rest => rest

/-- The text in its width: zeros go between the sign and the digits, blanks to the side asked for. -/
def pad (spec : Spec) (sign body : List Char) (numeric : Bool) : List Char :=
  let blanks := List.replicate (spec.width - (sign.length + body.length)) ' '
  if spec.left then sign ++ body ++ blanks
  else if spec.zero && numeric then sign ++ padLeft (spec.width - sign.length) '0' body
  else blanks ++ sign ++ body

def signOf (spec : Spec) (negative : Bool) : List Char :=
  if negative then ['-'] else if spec.plus then ['+'] else if spec.blank then [' '] else []

/-- The whole number an argument stands for; a fraction is cut off. -/
def wholeOf (c : Char) : Value → Except Problem Int
  | .int n => .ok n
  | .bool b => .ok (if b then 1 else 0)
  | .float (.finite negative n e _) =>
    let (num, den) := Decimal.exactValue n e
    let whole : Int := (num / den : Nat)
    .ok (if negative then -whole else whole)
  | .float x => .error (.notFinite x)
  | v => .error (.notANumber c v.fullTypeName)

def integerOf (c : Char) : Value → Except Problem Int
  | .int n => .ok n
  | .bool b => .ok (if b then 1 else 0)
  | v => .error (.notAnInteger c v.fullTypeName)

def decimalOf (limits : Limits) (n : Int) : Except Problem Int :=
  match Value.excessOfInt? limits n with
  | none => .ok n
  | some x => .error (.excess x)

def wholeText (spec : Spec) (base : Nat) (marker : List Char) (n : Int) : List Char :=
  let ds := padLeft (spec.precision.getD 0) '0' (digits base n.natAbs)
  pad spec (signOf spec (n < 0) ++ if spec.alternate then marker else []) ds true

/-- A number that need not be whole: its sign and, if it is finite, its exact value and a guess at the
exponent of its first digit. -/
def realOf : Value → Except Problem (Bool × Option (Nat × Nat × Int) × List Char)
  | .int n =>
    let (num, den) := Decimal.nearestDouble n.natAbs 1
    if Nat.pow 2 1024 ≤ num then .error .tooLarge
    else .ok (n < 0, some (num, den, (digits 10 n.natAbs).length), [])
  | .bool b => .ok (false, some (if b then 1 else 0, 1, 0), [])
  | .float (.finite negative n e _) =>
    let (num, den) := Decimal.exactValue n e
    .ok (negative, some (num, den, (digits 10 n).length - 1 + e), [])
  | .float .nan => .ok (false, none, "nan".toList)
  | .float (.infinity negative) => .ok (negative, none, "inf".toList)
  | v => .error (.notReal v.fullTypeName)

/-- The text without zeros at the end of its fraction, and without a point that nothing follows. -/
def dropFraction (cs : List Char) : List Char :=
  if cs.contains '.' then
    let kept := (cs.reverse.dropWhile (· == '0'))
    (match kept with
      | '.' :: rest => rest
      | rest => rest).reverse
  else cs

/-- What follows the point: without digits the point itself is only written when asked for. -/
def afterPoint (spec : Spec) (ds : List Char) : List Char :=
  if ds.isEmpty then (if spec.alternate then ['.'] else []) else '.' :: ds

def exponentForm (spec : Spec) (num den : Nat) (guess : Int) (places : Nat) : List Char :=
  let (ds, e) := Decimal.significant num den guess places
  ds.take 1 ++ afterPoint spec (ds.drop 1) ++ Decimal.exponentText e

def fixedForm (spec : Spec) (num den places : Nat) : List Char :=
  Decimal.fixedText num den places ++ (if places = 0 then afterPoint spec [] else [])

/-- More significant digits than any double has. -/
def allDigits : Nat := 1100

/-- The shorter of the two forms with a number of significant digits, without zeros at the end of the
fraction unless they are asked for. -/
def generalForm (spec : Spec) (num den : Nat) (guess : Int) (precision : Nat) : List Char :=
  let precision := max 1 (if spec.alternate then precision else min allDigits precision)
  let (ds, e) := Decimal.significant num den guess (precision - 1)
  let trim (cs : List Char) := if spec.alternate then cs else dropFraction cs
  if -4 ≤ e ∧ e < precision then trim (fixedForm spec num den (precision - 1 - e).toNat)
  else trim (ds.take 1 ++ afterPoint spec (ds.drop 1)) ++ Decimal.exponentText e

def realText (spec : Spec) (c : Char) (v : Value) : Except Problem (List Char) := do
  let (negative, value, name) ← realOf v
  let precision := spec.precision.getD 6
  let body := match value with
    | none => name
    | some (num, den, guess) =>
      if c.toLower = 'e' then exponentForm spec num den guess precision
      else if c.toLower = 'f' then fixedForm spec num den precision
      else generalForm spec num den guess precision
  let body := if c.isUpper then body.map Char.toUpper else body
  .ok (pad spec (signOf spec negative) body true)

def characterOf : Value → Except Problem Char
  | .int n => if 0 ≤ n ∧ n < 0x110000 then .ok (Char.ofNat n.toNat) else .error .characterOutOfRange
  | .bool b => .ok (Char.ofNat (if b then 1 else 0))
  | .text s =>
    match s.toList with
    | [c] => .ok c
    | _ => .error .notACharacter
  | _ => .error .notACharacter

def asciiOnly (s : String) : List Char :=
  s.toList.flatMap fun c =>
    if c.toNat < 0x80 then [c]
    else if c.toNat < 0x100 then '\\' :: 'x' :: Text.hex 2 c.toNat
    else if c.toNat < 0x10000 then '\\' :: 'u' :: Text.hex 4 c.toNat
    else '\\' :: 'U' :: Text.hex 8 c.toNat

def textIn (spec : Spec) (cs : List Char) : List Char :=
  let cs := match spec.precision with
    | some n => cs.take n
    | none => cs
  pad spec [] cs false

def shownBy (limits : Limits) (f : Value → String) (v : Value) : Except Problem String :=
  (v.within limits f).mapError .excess

def convert (limits : Limits) (spec : Spec) (c : Char) (index : Nat) (v : Value) :
    Except Problem (List Char) :=
  if c = 's' then (shownBy limits Value.display v).map fun s => textIn spec s.toList
  else if c = 'r' then (shownBy limits Value.literal v).map fun s => textIn spec s.toList
  else if c = 'a' then (shownBy limits Value.literal v).map fun s => textIn spec (asciiOnly s)
  else if c = 'd' ∨ c = 'i' ∨ c = 'u' then
    ((wholeOf c v).bind (decimalOf limits)).map (wholeText spec 10 [])
  else if c = 'x' then (integerOf c v).map (wholeText spec 16 ['0', 'x'])
  else if c = 'X' then
    (integerOf c v).map fun n => (wholeText spec 16 ['0', 'x'] n).map Char.toUpper
  else if c = 'o' then (integerOf c v).map (wholeText spec 8 ['0', 'o'])
  else if c.toLower = 'e' ∨ c.toLower = 'f' ∨ c.toLower = 'g' then realText spec c v
  else if c = 'c' then (characterOf v).map fun d => pad spec [] [d] false
  else .error (.unsupported c index)

/-- The longest width, and the highest precision, for which there is room. -/
def room : Nat := 1073741824

def maxPrecision : Nat := 2147483644

def Spec.excess? (spec : Spec) (c : Char) : Option Problem :=
  let precision := spec.precision.getD 0
  let real := c.toLower == 'e' || c.toLower == 'f' || (c.toLower == 'g' && spec.alternate)
  let whole := "diuxXo".toList.contains c
  if whole && maxPrecision < precision then some .precisionTooLarge
  else if room < spec.width || ((real || whole) && room < precision) then some .noRoom
  else none

/-- One argument in its place, if there is room for it. A wrong argument is found first. -/
def place (limits : Limits) (spec : Spec) (c : Char) (index : Nat) (v : Value) :
    Except Problem (List Char) :=
  match spec.excess? c with
  | none => convert limits spec c index v
  | some p =>
    (convert limits { spec with width := 0, precision := some 0 } c index v).bind fun _ => .error p

/-- A name up to the parenthesis that closes it, and what follows; `opened` others stand open in it. -/
def readName (opened : Nat) : List Char → Option (List Char × List Char)
  | [] => none
  | ')' :: rest =>
    match opened with
    | 0 => some ([], rest)
    | opened + 1 => (readName opened rest).map fun (name, rest) => (')' :: name, rest)
  | c :: rest =>
    (readName (if c = '(' then opened + 1 else opened) rest).map fun (name, rest) => (c :: name, rest)

/-- The arguments after a name that may stand at the start: what it names is the only one left. -/
def readSelection (cs : List Char) (args : Arguments) : Except Problem (List Char × Arguments) :=
  match cs, args.source with
  | '(' :: _, none => .error .noFields
  | '(' :: rest, some source =>
    match readName 0 rest with
    | none => .error .incompleteName
    | some (name, rest) =>
      match source with
      | .object fields =>
        match Entries.get? (String.ofList name) fields with
        | some v => .ok (rest, { args with left := [v] })
        | none => .error (.noField (String.ofList name))
      | _ => .error .noNames
  | cs, _ => .ok (cs, args)

/-- The rest of a template of `total` characters, filled in with the rest of the arguments. Each turn
takes a character at least, so `total` is fuel enough. -/
def fillFrom (limits : Limits) (total : Nat) : Nat → List Char → Arguments → Except Problem (List Char)
  | _, [], args => if args.surplus then .error .tooManyArguments else .ok []
  | 0, _ :: _, _ => .ok []
  | fuel + 1, '%' :: cs, args => do
    match cs with
    | '%' :: cs => return '%' :: (← fillFrom limits total fuel cs args)
    | cs =>
      let (cs, args) ← readSelection cs args
      let (spec, cs) := readFlags {} cs
      let (spec, cs, args) ← readWidth spec cs args
      let (spec, cs, args) ← readPrecision spec cs args
      match skipLength cs with
      | [] => .error .incomplete
      | c :: cs =>
        match args.next? with
        | none => .error .tooFewArguments
        | some (v, args) =>
          let shown ← place limits spec c (total - cs.length - 1) v
          return shown ++ (← fillFrom limits total fuel cs args)
  | fuel + 1, c :: cs, args => return c :: (← fillFrom limits total fuel cs args)

def fill (limits : Limits) (template : String) (args : Arguments) : Except Problem String := do
  let cs := template.toList
  return String.ofList (← fillFrom limits cs.length cs.length cs args)

end ApprovalFlow.Template
