import ApprovalFlow.Json.Reader
import ApprovalFlow.Json.Writer
import Mathlib.Data.List.Basic
import Mathlib.Algebra.Group.Nat.Defs

/-!
# Numbers in documents

A whole number and a double read back as what was written. A double is written in several forms, by the place of
its point; whichever it is, its text is a whole part, perhaps a fraction and perhaps an exponent (`Spells`), and
such a text is read in one way (`Spells.readUnsigned`).
-/

namespace ApprovalFlow.Text

/-! ## Digits -/

theorem isDigit_iff {c : Char} : isDigit c = true ↔ 48 ≤ c.toNat ∧ c.toNat ≤ 57 := by
  unfold isDigit
  rw [Bool.and_eq_true, decide_eq_true_eq, decide_eq_true_eq]
  exact Iff.rfl

theorem isDigit_of_mem_digits {n : Nat} {c : Char} (h : c ∈ digits 10 n) : isDigit c = true := by
  have hc := Nat.isDigit_of_mem_toDigits (by decide) (by decide) h
  rw [Char.isDigit, Bool.and_eq_true, decide_eq_true_eq, decide_eq_true_eq] at hc
  exact isDigit_iff.mpr hc

theorem decimalNumber_eq (cs : List Char) : decimalNumber cs = Nat.ofDigitChars 10 cs 0 :=
  Nat.ofDigitChars_eq_foldl.symm

theorem decimalNumber_digits (n : Nat) : decimalNumber (digits 10 n) = n := by
  rw [decimalNumber_eq]
  exact Nat.ofDigitChars_ten_toDigits

theorem decimalNumber_append_zeros (cs : List Char) (k : Nat) :
    decimalNumber (cs ++ List.replicate k '0') = decimalNumber cs * 10 ^ k := by
  rw [decimalNumber_eq, decimalNumber_eq, Nat.ofDigitChars_append, Nat.ofDigitChars_replicate_zero,
    Nat.mul_comm]

theorem decimalNumber_zeros_append (k : Nat) (cs : List Char) :
    decimalNumber (List.replicate k '0' ++ cs) = decimalNumber cs := by
  rw [decimalNumber_eq, decimalNumber_eq, Nat.ofDigitChars_append, Nat.ofDigitChars_replicate_zero,
    Nat.mul_zero]

theorem decimalNumber_decimal (width n : Nat) : decimalNumber (decimal width n) = n := by
  rw [decimal, padLeft, decimalNumber_zeros_append, decimalNumber_digits]

theorem isDigit_of_mem_decimal {width n : Nat} {c : Char} (h : c ∈ decimal width n) : isDigit c = true := by
  rcases List.mem_append.mp h with h | h
  · rw [List.eq_of_mem_replicate h]
    rfl
  · exact isDigit_of_mem_digits h

theorem decimal_ne_nil (width n : Nat) : decimal width n ≠ [] := fun h =>
  Nat.toDigits_ne_nil (List.append_eq_nil_iff.mp h).2

/-- No number but zero has a zero for its first digit. -/
theorem head?_digits {n : Nat} (hn : n ≠ 0) : (digits 10 n).head? ≠ some '0' := by
  induction n using Nat.strongRecOn with
  | ind n ih =>
    unfold digits at ih ⊢
    rcases Nat.lt_or_ge n 10 with hlt | hge
    · rw [Nat.toDigits_of_lt_base hlt]
      intro h
      have hchar : ∀ d < 10, Nat.digitChar d = '0' → d = 0 := by decide
      exact hn (hchar n hlt (Option.some.inj h))
    · rw [Nat.toDigits_of_base_le (by decide) hge, List.head?_append_of_ne_nil _ Nat.toDigits_ne_nil]
      exact ih (n / 10) (by omega) (by omega)

/-- The whole part of a number as it is written: digits, of which a zero stands alone if it is the first. -/
structure Whole (ds : List Char) : Prop where
  ne_nil : ds ≠ []
  digits : ∀ c ∈ ds, isDigit c = true
  leading : ds.head? = some '0' → ds = ['0']

theorem whole_zero : Whole ['0'] := ⟨by decide, List.forall_mem_singleton.mpr rfl, fun _ => rfl⟩

theorem whole_digits (n : Nat) : Whole (digits 10 n) := by
  refine ⟨Nat.toDigits_ne_nil, fun c => isDigit_of_mem_digits, fun h => ?_⟩
  by_cases hn : n = 0
  · rw [hn]
    rfl
  · exact absurd h (head?_digits hn)

end ApprovalFlow.Text

namespace ApprovalFlow.Json

open Text Decimal

/-! ## Where a number ends -/

/-- What may follow a value in a document on one line: nothing, a comma or a closing bracket. -/
def Closed (rest : List Char) : Prop := ∀ c ∈ rest.head?, c = ',' ∨ c = ']' ∨ c = '}'

theorem closed_nil : Closed [] := fun _ h => nomatch h

theorem closed_cons {c : Char} {rest : List Char} (h : c = ',' ∨ c = ']' ∨ c = '}') : Closed (c :: rest) := by
  intro d hd
  cases hd
  exact h

def NoDigit (rest : List Char) : Prop := ∀ c ∈ rest.head?, isDigit c = false

theorem noDigit_cons {c : Char} {rest : List Char} (h : isDigit c = false) : NoDigit (c :: rest) := by
  intro d hd
  cases hd
  exact h

theorem Closed.noDigit {rest : List Char} (h : Closed rest) : NoDigit rest := by
  intro c hc
  rcases h c hc with rfl | rfl | rfl <;> rfl

theorem span_digits {ds rest : List Char} (hds : ∀ c ∈ ds, isDigit c = true) (hrest : NoDigit rest) :
    (ds ++ rest).takeWhile isDigit = ds ∧ (ds ++ rest).dropWhile isDigit = rest := by
  rw [List.takeWhile_append_of_pos hds, List.dropWhile_append_of_pos hds]
  cases rest with
  | nil => exact ⟨List.append_nil ds, rfl⟩
  | cons c rest =>
    have hc : isDigit c = false := hrest c rfl
    simp only [List.takeWhile_cons, List.dropWhile_cons, hc, Bool.false_eq_true, if_false, List.append_nil,
      and_self]

theorem readDigits_append {ds rest : List Char} (hne : ds ≠ []) (hds : ∀ c ∈ ds, isDigit c = true)
    (hrest : NoDigit rest) : readDigits (ds ++ rest) = some (ds, rest) := by
  obtain ⟨htake, hdrop⟩ := span_digits hds hrest
  have hsome : ds.isEmpty = false := by
    cases ds with
    | nil => exact absurd rfl hne
    | cons c ds => rfl
  simp only [readDigits, htake, hdrop, hsome, Bool.false_eq_true, if_false]

theorem readWhole_append {ds rest : List Char} (h : Whole ds) (hrest : NoDigit rest) :
    readWhole (ds ++ rest) = some (ds, rest) := by
  unfold readWhole
  split
  · rename_i cs rest' heq
    have hhead : ds.head? = some '0' := by
      rw [← List.head?_append_of_ne_nil ds h.ne_nil, heq]
      rfl
    rw [h.leading hhead] at heq ⊢
    cases heq
    rfl
  · exact readDigits_append h.ne_nil h.digits hrest

/-! ## What the writer writes -/

def pointed : List Char → List Char
  | [] => []
  | ds => '.' :: ds

def raised : Option Int → List Char
  | none => []
  | some x => exponentText x

theorem noDigit_raised {x : Option Int} {rest : List Char} (hrest : Closed rest) :
    NoDigit (raised x ++ rest) := by
  cases x with
  | none => exact hrest.noDigit
  | some x => exact noDigit_cons rfl

theorem noDigit_pointed {fs : List Char} {x : Option Int} {rest : List Char} (hrest : Closed rest) :
    NoDigit (pointed fs ++ (raised x ++ rest)) := by
  cases fs with
  | nil => exact noDigit_raised hrest
  | cons c fs => exact noDigit_cons rfl

theorem readExponent_raised {x : Option Int} {rest : List Char} (hrest : Closed rest) :
    readExponent (raised x ++ rest) = (x, rest) := by
  cases x with
  | none =>
    cases rest with
    | nil => rfl
    | cons c rest => rcases hrest c rfl with rfl | rfl | rfl <;> rfl
  | some x =>
    have hdigits : readDigits (decimal 2 x.natAbs ++ rest) = some (decimal 2 x.natAbs, rest) :=
      readDigits_append (decimal_ne_nil _ _) (fun c => isDigit_of_mem_decimal) hrest.noDigit
    by_cases hx : x < 0
    · show readExponent ('e' :: (if x < 0 then '-' else '+') :: (decimal 2 x.natAbs ++ rest)) = _
      rw [if_pos hx]
      simp only [readExponent, true_or, if_true, hdigits, decimalNumber_decimal]
      rw [Int.ofNat_natAbs_of_nonpos (Int.le_of_lt hx), Int.neg_neg]
    · show readExponent ('e' :: (if x < 0 then '-' else '+') :: (decimal 2 x.natAbs ++ rest)) = _
      rw [if_neg hx]
      simp only [readExponent, true_or, if_true, hdigits, decimalNumber_decimal, Bool.false_eq_true, if_false]
      rw [Int.natAbs_of_nonneg (Int.not_lt.mp hx)]

theorem readFraction_pointed {fs : List Char} {x : Option Int} {rest : List Char}
    (hfs : ∀ c ∈ fs, isDigit c = true) (hrest : Closed rest) :
    readFraction (pointed fs ++ (raised x ++ rest)) = (fs, raised x ++ rest) := by
  cases fs with
  | nil =>
    cases x with
    | none =>
      cases rest with
      | nil => rfl
      | cons c rest => rcases hrest c rfl with rfl | rfl | rfl <;> rfl
    | some x => rfl
  | cons c fs =>
    show (readDigits ((c :: fs) ++ (raised x ++ rest))).getD _ = _
    rw [readDigits_append (List.cons_ne_nil c fs) hfs (noDigit_raised hrest)]
    rfl

/-- A whole number is read up to where it ends. -/
theorem readUnsigned_whole {limits : Limits} {negative : Bool} {ws rest : List Char} (hws : Whole ws)
    (hlength : ws.length ≤ limits.digits) (hrest : Closed rest) :
    readUnsigned limits negative (ws ++ rest) =
      some (.int (if negative then -(decimalNumber ws : Int) else decimalNumber ws), rest) := by
  have hnone : ∀ c ∈ ([] : List Char), isDigit c = true := fun _ h => nomatch h
  have hfraction := readFraction_pointed (x := none) hnone hrest
  have hexponent := readExponent_raised (x := none) hrest
  simp only [pointed, raised, List.nil_append] at hfraction hexponent
  simp only [readUnsigned, readWhole_append hws hrest.noDigit, Option.bind_eq_bind, Option.bind_some,
    hfraction, hexponent, List.isEmpty_nil, Option.isNone_none, Bool.and_self, if_true, List.append_nil,
    if_neg (Nat.not_lt.mpr hlength)]

/-- The text `cs` is a whole part with a fraction or an exponent, or both, and denotes `± n · 10 ^ e`. -/
structure Spells (whole fraction : List Char) (exponent : Option Int) (cs : List Char) (n : Nat) (e : Int) :
    Prop where
  text : cs = whole ++ (pointed fraction ++ raised exponent)
  isWhole : Whole whole
  digits : ∀ c ∈ fraction, isDigit c = true
  broken : (fraction.isEmpty && exponent.isNone) = false
  number : ∀ negative, ofScientific negative (decimalNumber (whole ++ fraction))
    (exponent.getD 0 - fraction.length) = ofScientific negative n e

theorem Spells.readUnsigned {ws fs cs rest : List Char} {x : Option Int} {n : Nat} {e : Int}
    (h : Spells ws fs x cs n e) (limits : Limits) (negative : Bool) (hrest : Closed rest) :
    readUnsigned limits negative (cs ++ rest) = some (.float (ofScientific negative n e), rest) := by
  rw [h.text, List.append_assoc, List.append_assoc]
  simp only [Json.readUnsigned, readWhole_append h.isWhole (noDigit_pointed hrest), Option.bind_eq_bind,
    Option.bind_some, readFraction_pointed h.digits hrest, readExponent_raised hrest, h.broken,
    Bool.false_eq_true, if_false, h.number]

/-! ## The forms of a double -/

theorem dropZeros_zero (e : Int) : dropZeros 0 e = (0, 0) := by
  rw [dropZeros, if_pos rfl]

/-- Zeros at the end of a number may be traded for its exponent. -/
theorem dropZeros_mul_pow (n k : Nat) (e : Int) : dropZeros (n * 10 ^ k) e = dropZeros n (e + k) := by
  induction k generalizing e with
  | zero =>
    rw [Nat.pow_zero, Nat.mul_one]
    exact congrArg _ (Int.add_zero e).symm
  | succ k ih =>
    by_cases hn : n = 0
    · rw [hn, Nat.zero_mul, dropZeros_zero, dropZeros_zero]
    have hne : n * 10 ^ (k + 1) ≠ 0 := Nat.mul_ne_zero hn (Nat.pos_iff_ne_zero.mp (Nat.pow_pos (by decide)))
    have hten : n * 10 ^ (k + 1) = n * 10 ^ k * 10 := by rw [Nat.pow_succ, Nat.mul_assoc]
    rw [dropZeros, if_neg hne, hten, if_pos (Nat.mul_mod_left _ _), Nat.mul_div_cancel _ (by decide), ih]
    congr 1
    push_cast
    omega

theorem ofScientific_mul_pow (negative : Bool) (n k : Nat) (e : Int) :
    ofScientific negative (n * 10 ^ k) e = ofScientific negative n (e + k) := by
  simp only [ofScientific, dropZeros_mul_pow]

theorem ofScientific_of_reduced {negative : Bool} {n : Nat} {e : Int} (h : Reduced n e) :
    ofScientific negative n e = finite negative n e h := by
  simp only [ofScientific, dropZeros_of_reduced h]

theorem pointed_of_ne_nil {fs : List Char} (h : fs ≠ []) : pointed fs = '.' :: fs := by
  cases fs with
  | nil => exact absurd rfl h
  | cons c fs => rfl

theorem isEmpty_of_ne_nil {fs : List Char} (h : fs ≠ []) : fs.isEmpty = false := by
  rw [← Bool.not_eq_true, List.isEmpty_iff]
  exact h

section Double

variable {n : Nat} {e : Int}

/-- All digits follow the point, with zeros between. -/
theorem spells_below (hpoint : (digits 10 n).length + e ≤ 0) :
    ∃ zeros, Spells ['0'] (List.replicate zeros '0' ++ digits 10 n) none
      (positional (digits 10 n) ((digits 10 n).length + e)) n e := by
  have hwhole := whole_digits n
  let zeros := (-((digits 10 n).length + e)).toNat
  have hne : List.replicate zeros '0' ++ digits 10 n ≠ [] := fun hnil =>
    hwhole.ne_nil (List.append_eq_nil_iff.mp hnil).2
  refine ⟨zeros, ?_, whole_zero, fun c hc => ?_, ?_, fun negative => ?_⟩
  · rw [positional, if_pos hpoint, raised, List.append_nil, pointed_of_ne_nil hne]
    rfl
  · rcases List.mem_append.mp hc with hc | hc
    · rw [List.eq_of_mem_replicate hc]
      rfl
    · exact hwhole.digits c hc
  · rw [isEmpty_of_ne_nil hne, Bool.false_and]
  · -- Leading zeros do not count in the number; that they are there does, for the exponent.
    have hnumber : decimalNumber (['0'] ++ (List.replicate zeros '0' ++ digits 10 n)) = n := by
      rw [show ['0'] = List.replicate 1 '0' from rfl, decimalNumber_zeros_append, decimalNumber_zeros_append,
        decimalNumber_digits]
    have hzeros : (zeros : Int) = -((digits 10 n).length + e) := Int.toNat_of_nonneg (by omega)
    have hexponent : (none : Option Int).getD 0 - (List.replicate zeros '0' ++ digits 10 n).length = e := by
      rw [List.length_append, List.length_replicate, Option.getD_none]
      push_cast
      omega
    rw [hnumber, hexponent]

/-- Zeros fill up to the point, and one follows it. -/
theorem spells_beyond {k : Nat} (h : Reduced n k) :
    Spells (digits 10 n ++ List.replicate k '0') ['0'] none
      (positional (digits 10 n) ((digits 10 n).length + (k : Int))) n k := by
  have hwhole := whole_digits n
  have hpos : 0 < (digits 10 n).length := List.length_pos_iff.mpr hwhole.ne_nil
  refine ⟨?_, ?_, List.forall_mem_singleton.mpr rfl, rfl, fun negative => ?_⟩
  · have hfill : ((digits 10 n).length + (k : Int)).toNat - (digits 10 n).length = k := by omega
    rw [positional, if_neg (by omega)]
    dsimp only
    rw [if_pos (by omega), hfill]
    rfl
  · -- Zero is not filled up, or it would begin with a zero that others follow.
    by_cases hn : n = 0
    · subst hn
      have hk : k = 0 := by
        rcases h with h | h
        · exact absurd rfl h
        · exact_mod_cast h.2
      rw [hk]
      exact whole_zero
    · refine ⟨fun hnil => hwhole.ne_nil (List.append_eq_nil_iff.mp hnil).1, fun c hc => ?_, fun hhead => ?_⟩
      · rcases List.mem_append.mp hc with hc | hc
        · exact hwhole.digits c hc
        · rw [List.eq_of_mem_replicate hc]
          rfl
      · rw [List.head?_append_of_ne_nil _ hwhole.ne_nil] at hhead
        exact absurd hhead (head?_digits hn)
  · have hexponent : (none : Option Int).getD 0 - (['0'].length : Nat) + (k + 1 : Nat) = k := by
      rw [Option.getD_none, List.length_singleton]
      push_cast
      omega
    rw [List.append_assoc, show ['0'] = List.replicate 1 '0' from rfl, List.replicate_append_replicate,
      decimalNumber_append_zeros, decimalNumber_digits, ofScientific_mul_pow]
    exact congrArg _ hexponent

/-- The point stands among the digits. -/
theorem spells_among (h : Reduced n e) (hpos : 0 < (digits 10 n).length + e) (hneg : e < 0) :
    ∃ p, Spells ((digits 10 n).take p) ((digits 10 n).drop p) none
      (positional (digits 10 n) ((digits 10 n).length + e)) n e := by
  have hwhole := whole_digits n
  let p := ((digits 10 n).length + e).toNat
  have hp : (p : Int) = (digits 10 n).length + e := Int.toNat_of_nonneg (by omega)
  have hn : n ≠ 0 := by
    rintro rfl
    rcases h with h | h
    · exact h rfl
    · omega
  -- The point is inside, so digits stand on both sides of it.
  have hdrop : (digits 10 n).drop p ≠ [] := by
    rw [Ne, List.drop_eq_nil_iff]
    omega
  refine ⟨p, ?_, ?_, fun c hc => hwhole.digits c (List.mem_of_mem_drop hc), ?_, fun negative => ?_⟩
  · rw [positional, if_neg (by omega)]
    dsimp only
    rw [if_neg (by omega), raised, List.append_nil, pointed_of_ne_nil hdrop]
  · refine ⟨fun hnil => ?_, fun c hc => hwhole.digits c (List.mem_of_mem_take hc), fun hhead => ?_⟩
    · rcases List.take_eq_nil_iff.mp hnil with hp' | hds
      · omega
      · exact hwhole.ne_nil hds
    · rw [List.head?_take, if_neg (by omega)] at hhead
      exact absurd hhead (head?_digits hn)
  · rw [isEmpty_of_ne_nil hdrop, Bool.false_and]
  · have hexponent : (none : Option Int).getD 0 - ((digits 10 n).drop p).length = e := by
      rw [List.length_drop, Option.getD_none]
      omega
    rw [List.take_append_drop, decimalNumber_digits, hexponent]

/-- One digit, a point if others follow, and an exponent. -/
theorem spells_scientific (n : Nat) (e : Int) :
    ∃ ws fs, Spells ws fs (some ((digits 10 n).length + e - 1))
      (scientific (digits 10 n) ((digits 10 n).length + e - 1)) n e := by
  have hwhole := whole_digits n
  have hnumber := decimalNumber_digits n
  generalize digits 10 n = ds at hwhole hnumber ⊢
  -- Of the digits only how many there are matters, and which number they are.
  match ds with
  | [] => exact absurd rfl hwhole.ne_nil
  | [d] =>
    refine ⟨[d], [], rfl, hwhole, fun _ h => (nomatch h), rfl, fun negative => ?_⟩
    have hexponent : (some ((([d].length : Nat) : Int) + e - 1)).getD 0 - (([] : List Char).length : Nat) = e := by
      rw [Option.getD_some, List.length_singleton, List.length_nil]
      push_cast
      omega
    rw [List.append_nil, hnumber, hexponent]
  | d :: d' :: ds =>
    have hd : Whole [d] := ⟨List.cons_ne_nil _ _,
      fun c hc => hwhole.digits c (List.mem_singleton.mp hc ▸ List.mem_cons_self), fun hhead => by
        cases hwhole.leading hhead⟩
    refine ⟨[d], d' :: ds, rfl, hd, fun c hc => hwhole.digits c (List.mem_cons_of_mem _ hc), rfl,
      fun negative => ?_⟩
    have hexponent : (some ((((d :: d' :: ds).length : Nat) : Int) + e - 1)).getD 0 -
        ((d' :: ds).length : Nat) = e := by
      rw [Option.getD_some, List.length_cons]
      push_cast
      omega
    rw [List.singleton_append, hnumber, hexponent]

def body (n : Nat) (e : Int) : List Char :=
  if -4 < (digits 10 n).length + e ∧ (digits 10 n).length + e ≤ 16 then
    positional (digits 10 n) ((digits 10 n).length + e)
  else scientific (digits 10 n) ((digits 10 n).length + e - 1)

theorem exists_spells (h : Reduced n e) : ∃ ws fs x, Spells ws fs x (body n e) n e := by
  have hpos : 0 < (digits 10 n).length := List.length_pos_iff.mpr (whole_digits n).ne_nil
  unfold body
  split
  · by_cases hpoint : (digits 10 n).length + e ≤ 0
    · obtain ⟨zeros, hz⟩ := spells_below hpoint
      exact ⟨_, _, _, hz⟩
    by_cases hneg : e < 0
    · obtain ⟨p, hp⟩ := spells_among h (Int.not_le.mp hpoint) hneg
      exact ⟨_, _, _, hp⟩
    · obtain ⟨k, rfl⟩ : ∃ k : Nat, e = k := ⟨e.toNat, (Int.toNat_of_nonneg (Int.not_lt.mp hneg)).symm⟩
      exact ⟨_, _, _, spells_beyond h⟩
  · obtain ⟨ws, fs, hs⟩ := spells_scientific n e
    exact ⟨ws, fs, _, hs⟩

theorem toList_toText (negative : Bool) (h : Reduced n e) :
    (finite negative n e h).toText.toList = signText negative ++ body n e := by
  rw [toText, String.toList_ofList]
  rfl

end Double

/-! ## Numbers read back -/

variable {limits : Limits} {rest : List Char}

theorem readScalar_of_digit {c : Char} (hc : isDigit c = true) (cs : List Char) :
    readScalar limits (c :: cs) = readUnsigned limits false (c :: cs) := by
  have hne : ∀ d, isDigit d = false → c ≠ d := by
    rintro d hd rfl
    rw [hd] at hc
    cases hc
  unfold readScalar
  split
  case h_8 => rfl
  all_goals
    rename_i heq
    exact absurd (List.cons.inj heq).1 (hne _ rfl)

theorem readScalar_of_minus {c : Char} (hc : isDigit c = true) (cs : List Char) :
    readScalar limits ('-' :: c :: cs) = readUnsigned limits true (c :: cs) := by
  have hne : c ≠ 'I' := by
    rintro rfl
    cases hc
  unfold readScalar
  -- After a minus only a letter could begin something other than a number.
  split
  case h_6 =>
    rename_i heq
    exact absurd (List.cons.inj (List.cons.inj heq).2).1 hne
  case h_7 =>
    rename_i heq
    cases heq
    rfl
  case h_8 =>
    rename_i h
    exact absurd rfl (h _)
  all_goals
    rename_i heq
    cases heq

/-- A number without its sign starts with a digit. -/
theorem readScalar_whole (negative : Bool) {ws : List Char} (hws : Whole ws) (cs : List Char) :
    readScalar limits (signText negative ++ (ws ++ cs)) = readUnsigned limits negative (ws ++ cs) := by
  cases ws with
  | nil => exact absurd rfl hws.ne_nil
  | cons c ws =>
    have hc := hws.digits c List.mem_cons_self
    cases negative with
    | false => exact readScalar_of_digit hc _
    | true => exact readScalar_of_minus hc _

theorem toList_toString (n : Int) :
    (toString n).toList = signText (decide (n < 0)) ++ digits 10 n.natAbs := by
  rw [Int.toString_eq_repr, Int.repr_eq_if]
  by_cases hn : 0 ≤ n
  · rw [if_pos hn, Nat.toList_repr, decide_eq_false (Int.not_lt.mpr hn)]
    congr 1
    omega
  · have habs : (-n).toNat = n.natAbs := by omega
    rw [if_neg hn, String.toList_append, Nat.toList_repr, decide_eq_true (Int.not_le.mp hn), habs]
    rfl

theorem readScalar_int (n : Int) (hlength : (toString n).toList.length ≤ limits.digits) (hrest : Closed rest) :
    readScalar limits ((toString n).toList ++ rest) = some (.int n, rest) := by
  rw [toList_toString] at hlength ⊢
  have hdigits : (digits 10 n.natAbs).length ≤ limits.digits := by
    rw [List.length_append] at hlength
    omega
  rw [List.append_assoc, readScalar_whole _ (whole_digits _),
    readUnsigned_whole (whole_digits _) hdigits hrest, decimalNumber_digits]
  by_cases hn : n < 0
  · rw [if_pos (decide_eq_true hn), Int.ofNat_natAbs_of_nonpos (Int.le_of_lt hn), Int.neg_neg]
  · rw [if_neg (by rwa [decide_eq_true_eq]), Int.natAbs_of_nonneg (Int.not_lt.mp hn)]

theorem readScalar_float (x : Decimal) (hrest : Closed rest) :
    readScalar limits (writeFloat x ++ rest) = some (.float x, rest) := by
  cases x with
  | nan => rfl
  | infinity negative => cases negative <;> rfl
  | finite negative n e h =>
    obtain ⟨ws, fs, x, hs⟩ := exists_spells h
    show readScalar limits ((finite negative n e h).toText.toList ++ rest) = _
    have htext := hs.readUnsigned limits negative hrest
    rw [toList_toText, List.append_assoc]
    rw [hs.text, List.append_assoc] at htext ⊢
    rw [readScalar_whole _ hs.isWhole, htext, ofScientific_of_reduced h]

end ApprovalFlow.Json
