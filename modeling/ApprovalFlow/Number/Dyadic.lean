import ApprovalFlow.Number.Decimal

/-!
# Exact values of doubles

The value of a double is a whole number times a power of two. Fixed-point and exponent forms round
that exact value, half-way cases to the even neighbour.
-/

namespace ApprovalFlow

open Text (digits decimal)

/-- The quotient rounded to the nearest whole number, a half to the even one. -/
def roundDiv (num den : Nat) : Nat :=
  let q := num / den
  let r := num % den
  if den < 2 * r ∨ (2 * r = den ∧ q % 2 = 1) then q + 1 else q

def scale (base num den : Nat) (e : Int) : Nat × Nat :=
  (num * Nat.pow base e.toNat, den * Nat.pow base (-e).toNat)

def roundScaled (base num den : Nat) (e : Int) : Nat :=
  let (num, den) := scale base num den e
  roundDiv num den

/-- A rounded quotient is within half a unit of the exact one. -/
theorem roundDiv_near (num den : Nat) (h : 0 < den) :
    2 * num ≤ (2 * roundDiv num den + 1) * den ∧ 2 * (roundDiv num den * den) ≤ 2 * num + den := by
  have hm := Nat.div_add_mod num den
  have hl := Nat.mod_lt num h
  have hc : den * (num / den) = num / den * den := Nat.mul_comm _ _
  unfold roundDiv
  simp only
  split
  · rename_i hr
    have h1 : (num / den + 1) * den = num / den * den + den := by rw [Nat.add_mul, Nat.one_mul]
    have h2 : (2 * (num / den + 1) + 1) * den = 2 * (num / den * den) + 3 * den := by
      rw [Nat.add_mul, Nat.mul_assoc, h1]; omega
    rw [h1, h2]
    omega
  · rename_i hr
    have h2 : (2 * (num / den) + 1) * den = 2 * (num / den * den) + den := by
      rw [Nat.add_mul, Nat.mul_assoc]; omega
    rw [h2]
    omega

namespace Decimal

/-- The double nearest to `num / den`, as an exact fraction: 53 bits are kept, fewer below the least
normal number. -/
def nearestDouble (num den : Nat) : Nat × Nat :=
  if num = 0 then (0, 1)
  else
    let q : Int := max (-1074) ((Nat.log2 num : Int) - Nat.log2 den - 53)
    -- One bit too many has been kept when the first estimate of the magnitude was low.
    let q' := if Nat.pow 2 53 < roundScaled 2 num den (-q) then q + 1 else q
    scale 2 (roundScaled 2 num den (-q')) 1 q'

/-- The exact value of the double nearest to `n · 10 ^ e`, as a fraction. -/
def exactValue (n : Nat) (e : Int) : Nat × Nat :=
  let (num, den) := scale 10 n 1 e
  nearestDouble num den

/-- The exponent of the first digit of `num / den`, given one that is at most one too high. -/
def leadingExponent (num den : Nat) (guess : Int) : Int :=
  let (n, d) := scale 10 num den (-guess)
  if n < d then guess - 1 else guess

/-- The rounded significant digits, `places` of them after the first, and the exponent of the first. -/
def significant (num den : Nat) (guess : Int) (places : Nat) : List Char × Int :=
  if num = 0 then (List.replicate (places + 1) '0', 0)
  else
    let e := leadingExponent num den guess
    let n := roundScaled 10 num den (places - e)
    if Nat.pow 10 (places + 1) ≤ n then (digits 10 (n / 10), e + 1) else (digits 10 n, e)

def fixedText (num den places : Nat) : List Char :=
  let ds := decimal (places + 1) (roundScaled 10 num den places)
  let point := ds.length - places
  ds.take point ++ (if places = 0 then [] else '.' :: ds.drop point)

end Decimal

end ApprovalFlow
