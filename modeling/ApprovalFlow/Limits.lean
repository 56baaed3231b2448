import ApprovalFlow.Value

/-!
# Limits of texts and documents

A whole number can be told in a text only up to a number of digits, and brackets nest only as deeply as there
is room for. A value is examined in the order in which it is shown or written: what is found first that has
no room is its excess.
-/

namespace ApprovalFlow

/-- How much of a value or a document is taken. -/
structure Limits where
  /-- How many brackets may be open at a time. -/
  depth : Nat
  /-- How many digits a whole number may have. -/
  digits : Nat
  deriving Repr, DecidableEq

namespace Limits

/-- The digits are a fixed number. The depth is what is left by callers that are not nested deeply
themselves. -/
def usual : Limits := ⟨980, 4300⟩

/-- Limits that no document exceeds whose text is as long as `s`. -/
def beyond (s : String) : Limits := ⟨s.length, s.length⟩

end Limits

inductive Excess where
  | digits (most : Nat)
  | depth
  deriving Repr, DecidableEq

def Excess.message (doing : String) : Excess → String
  | digits most => s!"Exceeds the limit ({most} digits) for integer string conversion; " ++
      "use sys.set_int_max_str_digits() to increase the limit"
  | depth => s!"maximum recursion depth exceeded while {doing}"

namespace Value

def excessOfInt? (limits : Limits) (n : Int) : Option Excess :=
  if limits.digits < (Text.digits 10 n.natAbs).length then some (.digits limits.digits) else none

mutual

/-- The first excess in a value around which some brackets are open. Facts show in brackets too. -/
def excessWithin? (limits : Limits) (opened : Nat) : Value → Option Excess
  | int n => excessOfInt? limits n
  | list items => if limits.depth ≤ opened then some .depth else excessInItems? limits (opened + 1) items
  | tuple items => if limits.depth ≤ opened then some .depth else excessInItems? limits (opened + 1) items
  | object fields => if limits.depth ≤ opened then some .depth else excessInFields? limits (opened + 1) fields
  | fact _ value => if limits.depth ≤ opened then some .depth else excessWithin? limits (opened + 1) value
  | _ => none

def excessInItems? (limits : Limits) (opened : Nat) : List Value → Option Excess
  | [] => none
  | v :: rest => (excessWithin? limits opened v).or (excessInItems? limits opened rest)

def excessInFields? (limits : Limits) (opened : Nat) : List (String × Value) → Option Excess
  | [] => none
  | (_, v) :: rest => (excessWithin? limits opened v).or (excessInFields? limits opened rest)

end

def Fits (limits : Limits) (opened : Nat) (v : Value) : Prop := v.excessWithin? limits opened = none

instance (limits : Limits) (opened : Nat) (v : Value) : Decidable (v.Fits limits opened) :=
  inferInstanceAs (Decidable (_ = none))

theorem excessInItems?_eq_none_iff {limits : Limits} {opened : Nat} {items : List Value} :
    excessInItems? limits opened items = none ↔ ∀ v ∈ items, v.Fits limits opened := by
  induction items with
  | nil => simp only [excessInItems?, List.not_mem_nil, false_implies, implies_true]
  | cons v items ih => simp only [excessInItems?, Option.or_eq_none_iff, ih, List.forall_mem_cons, Fits]

theorem excessInFields?_eq_none_iff {limits : Limits} {opened : Nat} {fields : List (String × Value)} :
    excessInFields? limits opened fields = none ↔ ∀ p ∈ fields, p.2.Fits limits opened := by
  induction fields with
  | nil => simp only [excessInFields?, List.not_mem_nil, false_implies, implies_true]
  | cons p fields ih => simp only [excessInFields?, Option.or_eq_none_iff, ih, List.forall_mem_cons, Fits]

theorem fits_text (limits : Limits) (opened : Nat) (s : String) : (text s).Fits limits opened := by
  simp only [Fits, excessWithin?]

theorem excessInBrackets_eq_none_iff {limits : Limits} {opened : Nat} {inside : Option Excess} :
    (if limits.depth ≤ opened then some .depth else inside) = none ↔ opened < limits.depth ∧ inside = none := by
  split
  · simp only [reduceCtorEq, false_iff]
    omega
  · simp only [iff_and_self]
    omega

/-- There is room for a list where a bracket may be opened and there is room for each item in it. -/
theorem fits_list_iff {limits : Limits} {opened : Nat} {items : List Value} :
    (list items).Fits limits opened ↔ opened < limits.depth ∧ ∀ v ∈ items, v.Fits limits (opened + 1) := by
  simp only [Fits, excessWithin?, excessInBrackets_eq_none_iff, excessInItems?_eq_none_iff]

theorem fits_object_iff {limits : Limits} {opened : Nat} {fields : List (String × Value)} :
    (object fields).Fits limits opened ↔ opened < limits.depth ∧ ∀ p ∈ fields, p.2.Fits limits (opened + 1) := by
  simp only [Fits, excessWithin?, excessInBrackets_eq_none_iff, excessInFields?_eq_none_iff]

def within (limits : Limits) (f : Value → String) (v : Value) : Except Excess String :=
  match v.excessWithin? limits 0 with
  | none => .ok (f v)
  | some x => .error x

end Value

end ApprovalFlow
