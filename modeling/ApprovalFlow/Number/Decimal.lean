import ApprovalFlow.Text.Digits

/-!
# Floating-point numbers as decimals

A double is held as the shortest decimal that reads back as it, which tells any two doubles apart.
`Decimal.toText` writes it: positionally with at least one digit after the point while the exponent
of the first digit is from -4 to 15, else with that exponent.
-/

namespace ApprovalFlow

open Text (digits decimal decimalNumber isDigit)

/-- Whether `digits` has no zero at its end; zero itself has the exponent zero. Every decimal number is
`digits · 10 ^ exponent` for one such pair. -/
def Decimal.Reduced (digits : Nat) (exponent : Int) : Prop :=
  digits % 10 ≠ 0 ∨ digits = 0 ∧ exponent = 0

/-- A double: not a number, infinite, or `± digits · 10 ^ exponent`. -/
inductive Decimal where
  | nan
  | infinity (negative : Bool)
  | finite (negative : Bool) (digits : Nat) (exponent : Int) (reduced : Decimal.Reduced digits exponent)
  deriving Repr, DecidableEq, Inhabited

namespace Decimal

def signText (negative : Bool) : List Char := if negative then ['-'] else []

def exponentText (e : Int) : List Char :=
  'e' :: (if e < 0 then '-' else '+') :: decimal 2 e.natAbs

/-- The digits `ds` with the point after the first `point` of them; zeros fill what is missing, and
one digit at least stands on either side. -/
def positional (ds : List Char) (point : Int) : List Char :=
  if point ≤ 0 then '0' :: '.' :: (List.replicate (-point).toNat '0' ++ ds)
  else
    let n := point.toNat
    if ds.length ≤ n then ds ++ List.replicate (n - ds.length) '0' ++ ['.', '0']
    else ds.take n ++ '.' :: ds.drop n

def scientific (ds : List Char) (e : Int) : List Char :=
  match ds with
  | [] => exponentText e
  | [d] => d :: exponentText e
  | d :: rest => d :: '.' :: rest ++ exponentText e

def toText : Decimal → String
  | nan => "nan"
  | infinity negative => String.ofList (signText negative ++ "inf".toList)
  | finite negative n e _ =>
    let ds := digits 10 n
    let point := ds.length + e
    let body := if -4 < point ∧ point ≤ 16 then positional ds point else scientific ds (point - 1)
    String.ofList (signText negative ++ body)

/-- `n · 10 ^ e` without zeros at the end of `n`. -/
def dropZeros (n : Nat) (e : Int) : Nat × Int :=
  if n = 0 then (0, 0) else if n % 10 = 0 then dropZeros (n / 10) (e + 1) else (n, e)
termination_by n

theorem reduced_dropZeros (n : Nat) (e : Int) : Reduced (dropZeros n e).1 (dropZeros n e).2 := by
  fun_induction dropZeros n e with
  | case1 => exact .inr ⟨rfl, rfl⟩
  | case2 n e _ _ ih => exact ih
  | case3 n e _ h => exact .inl h

theorem dropZeros_of_reduced {n : Nat} {e : Int} (h : Reduced n e) : dropZeros n e = (n, e) := by
  rw [dropZeros]
  rcases h with h | ⟨rfl, rfl⟩
  · have hn : n ≠ 0 := fun hn => h (by rw [hn])
    rw [if_neg hn, if_neg h]
  · rfl

def ofScientific (negative : Bool) (n : Nat) (e : Int) : Decimal :=
  finite negative (dropZeros n e).1 (dropZeros n e).2 (reduced_dropZeros n e)

def readExponent? : List Char → Option Int
  | '-' :: cs => if cs.all isDigit && !cs.isEmpty then some (-(decimalNumber cs : Int)) else none
  | '+' :: cs => if cs.all isDigit && !cs.isEmpty then some (decimalNumber cs : Int) else none
  | cs => if cs.all isDigit && !cs.isEmpty then some (decimalNumber cs : Int) else none

def readUnsigned? (negative : Bool) (cs : List Char) : Option Decimal :=
  let whole := cs.takeWhile isDigit
  let rest := cs.dropWhile isDigit
  let (fraction, rest) := match rest with
    | '.' :: r => (r.takeWhile isDigit, r.dropWhile isDigit)
    | r => ([], r)
  if whole.isEmpty then none
  else
    let n := decimalNumber (whole ++ fraction)
    match rest with
    | [] => some (ofScientific negative n (-fraction.length))
    | 'e' :: r => (readExponent? r).map fun e => ofScientific negative n (e - fraction.length)
    | 'E' :: r => (readExponent? r).map fun e => ofScientific negative n (e - fraction.length)
    | _ => none

def ofText? (s : String) : Option Decimal :=
  if s = "nan" then some nan
  else if s = "inf" then some (infinity false)
  else if s = "-inf" then some (infinity true)
  else match s.toList with
    | '-' :: cs => readUnsigned? true cs
    | cs => readUnsigned? false cs

end Decimal

end ApprovalFlow
