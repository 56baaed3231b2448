import ApprovalFlow.Proofs.Numerals

/-!
# Documents read back

A document on one line reads back as the value that was written, but for what a document cannot tell apart: a
tuple reads as a list, a state as its name, and a thing that no document holds as the text that shows it
(`Value.asRead`). No line has a control character in it.
-/

namespace ApprovalFlow

/-! ## What a reader finds -/

namespace Value

mutual

/-- What is read where a value was written. -/
def asRead : Value → Value
  | null => null
  | bool b => bool b
  | int n => int n
  | float x => float x
  | text s => text s
  | list items => list (itemsAsRead items)
  | tuple items => list (itemsAsRead items)
  | object fields => object (Entries.ofList (fieldsAsRead fields))
  | state w => text w.name
  | moment t universal => text (moment t universal).display
  | actor a => text (actor a).display
  | outcome o => text (outcome o).display
  | fact key value => text (fact key value).display
  | thing => text thing.display

def itemsAsRead : List Value → List Value
  | [] => []
  | v :: rest => v.asRead :: itemsAsRead rest

def fieldsAsRead : List (String × Value) → List (String × Value)
  | [] => []
  | (name, v) :: rest => (name, v.asRead) :: fieldsAsRead rest

end

theorem fieldsAsRead_eq (fields : List (String × Value)) :
    fieldsAsRead fields = fields.map fun p => (p.1, p.2.asRead) := by
  induction fields with
  | nil => rfl
  | cons f fields ih => rw [fieldsAsRead, ih, List.map_cons]

end Value

namespace Entries

variable {κ ν : Type} [DecidableEq κ]

theorem put_of_not_mem {m : Entries κ ν} {k : κ} (h : k ∉ keys m) (v : ν) : put k v m = m ++ [(k, v)] := by
  induction m with
  | nil => rfl
  | cons p m ih =>
    obtain ⟨k', v'⟩ := p
    have hk : k' ≠ k := fun hk => h (hk ▸ List.mem_cons_self)
    rw [put, if_neg hk, ih fun hm => h (List.mem_cons_of_mem _ hm)]
    rfl

/-- Entries whose keys are distinct are taken as they are. -/
theorem ofList_of_nodup {pairs : List (κ × ν)} (h : (pairs.map (·.1)).Nodup) : ofList pairs = pairs := by
  have hput : ∀ (more m : List (κ × ν)), ((m ++ more).map (·.1)).Nodup →
      more.foldl (fun m p => put p.1 p.2 m) m = m ++ more := by
    intro more
    induction more with
    | nil => exact fun m _ => (List.append_nil m).symm
    | cons p more ih =>
      intro m hm
      have hnew : p.1 ∉ keys m := by
        rw [List.map_append, List.nodup_append] at hm
        exact fun hp => hm.2.2 _ hp _ List.mem_cons_self rfl
      rw [List.foldl_cons, put_of_not_mem hnew, ih, List.append_assoc]
      · rfl
      · rwa [List.append_assoc]
  exact hput pairs [] h

end Entries

/-- An object whose names are distinct reads back with each value as it reads back. -/
theorem Value.asRead_object {fields : List (String × Value)} (h : (fields.map (·.1)).Nodup) :
    (Value.object fields).asRead = .object (fields.map fun p => (p.1, p.2.asRead)) := by
  rw [asRead, fieldsAsRead_eq, Entries.ofList_of_nodup]
  rwa [List.map_map]

namespace Json

open Text

/-! ## Texts -/

/-- An escape of a control character has four digits, which denote it. -/
theorem hex_control : ∀ n < 0x20, ∃ a b c d, hex 4 n = [a, b, c, d] ∧ hexNumber? [a, b, c, d] = some n := by
  have hall : ∀ n < 0x20, (hex 4 n).length = 4 ∧ hexNumber? (hex 4 n) = some n := by decide
  intro n hn
  obtain ⟨hlength, hnumber⟩ := hall n hn
  match hex 4 n, hlength, hnumber with
  | [a, b, c, d], _, hnumber => exact ⟨a, b, c, d, rfl, hnumber⟩

/-- What is written for a character: a short escape, the escape of a control character, or itself. -/
theorem escapeChar_cases (c : Char) :
    (∃ e, escapeChar false c = ['\\', e] ∧ e ≠ 'u' ∧ 0x20 ≤ e.toNat ∧ shortEscape? e = some c.toNat) ∨
    (c.toNat < 0x20 ∧ escapeChar false c = unitEscape c.toNat) ∨
    (0x20 ≤ c.toNat ∧ c ≠ '"' ∧ c ≠ '\\' ∧ escapeChar false c = [c]) := by
  by_cases hquote : c = '"'
  · exact .inl ⟨'"', by subst hquote; decide⟩
  by_cases hbackslash : c = '\\'
  · exact .inl ⟨'\\', by subst hbackslash; decide⟩
  by_cases hn : c = '\n'
  · exact .inl ⟨'n', by subst hn; decide⟩
  by_cases hr : c = '\r'
  · exact .inl ⟨'r', by subst hr; decide⟩
  by_cases ht : c = '\t'
  · exact .inl ⟨'t', by subst ht; decide⟩
  by_cases hb : c = '\x08'
  · exact .inl ⟨'b', by subst hb; decide⟩
  by_cases hf : c = '\x0c'
  · exact .inl ⟨'f', by subst hf; decide⟩
  -- What has no short escape is written as it is, or as a unit if it is a control character.
  right
  rw [escapeChar, if_neg (not_or.mpr ⟨hquote, hbackslash⟩), if_neg hn, if_neg hr, if_neg ht, if_neg hb, if_neg hf]
  by_cases hcontrol : c.toNat < 0x20
  · exact .inl ⟨hcontrol, if_pos hcontrol⟩
  · rw [if_neg hcontrol, Bool.false_and, if_neg Bool.false_ne_true]
    exact .inr ⟨Nat.not_lt.mp hcontrol, hquote, hbackslash, rfl⟩

/-- A character is read from what was written for it. -/
theorem readUnits_escapeChar (c : Char) (cs : List Char) :
    readUnits (escapeChar false c ++ cs) = (readUnits cs).map fun (units, rest) => (c.toNat :: units, rest) := by
  obtain ⟨e, h, hu, -, he⟩ | ⟨hcontrol, h⟩ | ⟨hprinted, hquote, hbackslash, h⟩ := escapeChar_cases c
  · rw [h]
    show readUnits ('\\' :: e :: cs) = _
    rw [readUnits.eq_4 _ _ fun _ _ _ _ _ h _ => hu h, he]
    cases readUnits cs <;> rfl
  · obtain ⟨a, b, c', d, hhex, hnumber⟩ := hex_control c.toNat hcontrol
    rw [h, unitEscape, hhex]
    show readUnits ('\\' :: 'u' :: a :: b :: c' :: d :: cs) = _
    rw [readUnits, hnumber]
    cases readUnits cs <;> rfl
  · rw [h]
    show readUnits (c :: cs) = _
    rw [readUnits.eq_5 _ _ hquote (fun _ _ _ _ _ h _ => hbackslash h) fun _ _ h _ => hbackslash h,
      if_neg (not_or.mpr ⟨Nat.not_lt.mpr hprinted, hbackslash⟩)]
    cases readUnits cs <;> rfl

theorem readUnits_text (s rest : List Char) :
    readUnits (s.flatMap (escapeChar false) ++ '"' :: rest) = some (s.map Char.toNat, rest) := by
  induction s with
  | nil => rfl
  | cons c s ih =>
    rw [List.flatMap_cons, List.append_assoc, readUnits_escapeChar, ih]
    rfl

/-- No character is half of a surrogate pair. -/
theorem not_isFirstHalf (c : Char) : isFirstHalf c.toNat = false := by
  unfold isFirstHalf
  rw [Bool.and_eq_false_iff, decide_eq_false_iff_not, decide_eq_false_iff_not]
  rcases c.valid with h | ⟨h, -⟩
  · exact .inl (Nat.not_le.mpr h)
  · exact .inr (Nat.not_lt.mpr (Nat.le_trans (by decide) (Nat.le_of_lt h)))

theorem not_isSecondHalf (c : Char) : isSecondHalf c.toNat = false := by
  unfold isSecondHalf
  rw [Bool.and_eq_false_iff, decide_eq_false_iff_not, decide_eq_false_iff_not]
  rcases c.valid with h | ⟨h, -⟩
  · exact .inl (Nat.not_le.mpr (Nat.lt_trans h (by decide)))
  · exact .inr (Nat.not_lt.mpr h)

theorem loneChar_toNat (c : Char) : loneChar c.toNat = c := by
  rw [loneChar, not_isFirstHalf, not_isSecondHalf, Bool.or_false, if_neg Bool.false_ne_true, Char.ofNat_toNat]

theorem joinUnits_toNat (s : List Char) : joinUnits (s.map Char.toNat) = s := by
  induction s with
  | nil => rfl
  | cons c s ih =>
    cases s with
    | nil => rw [List.map_cons, List.map_nil, joinUnits, loneChar_toNat]
    | cons c' s =>
      rw [List.map_cons, List.map_cons, joinUnits, not_isFirstHalf, Bool.false_and, if_neg Bool.false_ne_true,
        loneChar_toNat]
      exact congrArg _ ih

/-- A text is read from what was written for it, after its opening quote. -/
theorem readText_writeText (s : String) (rest : List Char) :
    readText (s.toList.flatMap (escapeChar false) ++ ['"'] ++ rest) = some (s, rest) := by
  rw [List.append_assoc, List.singleton_append, readText, readUnits_text]
  simp only [Option.map_some, joinUnits_toNat, String.ofList_toList]

/-! ## Values -/

variable {limits : Limits} {fuel depth d : Nat} {rest : List Char}

theorem readValue_writeText (s : String) :
    readValue limits (fuel + 1) depth (writeText false s ++ rest) = .ok (.text s, rest) := by
  show readValue limits (fuel + 1) depth ('"' :: (s.toList.flatMap (escapeChar false) ++ ['"'] ++ rest)) = _
  rw [readValue, readText_writeText]
  rfl

def StartsScalar (c : Char) : Prop := c ≠ '"' ∧ c ≠ '[' ∧ c ≠ '{'

instance : DecidablePred StartsScalar := fun c =>
  inferInstanceAs (Decidable (c ≠ '"' ∧ c ≠ '[' ∧ c ≠ '{'))

theorem readValue_scalar {c : Char} (hc : StartsScalar c) (cs : List Char) :
    readValue limits (fuel + 1) depth (c :: cs) = orMalformed (readScalar limits (c :: cs)) := by
  rw [readValue.eq_7]
  · exact fun rest h => hc.1 (List.cons.inj h).1
  · exact fun tail _ h => hc.2.1 (List.cons.inj h).1
  · exact fun tail _ h => hc.2.2 (List.cons.inj h).1
  · exact fun depth rest _ h => hc.2.1 (List.cons.inj h).1
  · exact fun depth rest _ h => hc.2.2 (List.cons.inj h).1

def Starts (c : Char) : Prop := isBlank c = false ∧ c ≠ ']'

instance : DecidablePred Starts := fun c => inferInstanceAs (Decidable (isBlank c = false ∧ c ≠ ']'))

theorem starts_of_isDigit {c : Char} (hc : isDigit c = true) : Starts c ∧ StartsScalar c := by
  have hne : ∀ d, isDigit d = false → c ≠ d := by
    rintro d hd rfl
    rw [hd] at hc
    cases hc
  refine ⟨⟨?_, hne _ rfl⟩, hne _ rfl, hne _ rfl, hne _ rfl⟩
  simp only [isBlank, Bool.or_eq_false_iff, beq_eq_false_iff_ne]
  exact ⟨⟨⟨hne _ rfl, hne _ rfl⟩, hne _ rfl⟩, hne _ rfl⟩

theorem starts_minus : Starts '-' ∧ StartsScalar '-' := by decide

/-- A number starts with its sign or its first digit. -/
theorem starts_number (negative : Bool) {ws : List Char} (hws : Whole ws) (cs : List Char) :
    ∃ c cs', Decimal.signText negative ++ (ws ++ cs) = c :: cs' ∧ Starts c ∧ StartsScalar c := by
  cases negative with
  | true => exact ⟨'-', ws ++ cs, rfl, starts_minus⟩
  | false =>
    cases ws with
    | nil => exact absurd rfl hws.ne_nil
    | cons c ws => exact ⟨c, ws ++ cs, rfl, starts_of_isDigit (hws.digits c List.mem_cons_self)⟩

theorem starts_int (n : Int) : ∃ c cs, (toString n).toList = c :: cs ∧ Starts c ∧ StartsScalar c := by
  rw [toList_toString, ← List.append_nil (digits 10 _)]
  exact starts_number _ (whole_digits _) []

theorem starts_float (x : Decimal) : ∃ c cs, writeFloat x = c :: cs ∧ Starts c ∧ StartsScalar c := by
  cases x with
  | nan => exact ⟨_, _, rfl, by decide⟩
  | infinity negative => cases negative <;> exact ⟨_, _, rfl, by decide⟩
  | finite negative n e h =>
    obtain ⟨ws, fs, x, hs⟩ := exists_spells h
    show ∃ c cs, (Decimal.finite negative n e h).toText.toList = c :: cs ∧ _
    rw [toList_toText, hs.text]
    exact starts_number _ hs.isWhole _

theorem starts_writeText (s : String) : ∃ c cs, writeText false s = c :: cs ∧ Starts c :=
  ⟨'"', _, rfl, by decide⟩

theorem starts_writeItems (d : Nat) (items : List Value) :
    ∃ c cs, writeItems .line d items = c :: cs ∧ Starts c := by
  cases items with
  | nil => exact ⟨'[', _, rfl, by decide⟩
  | cons v items => exact ⟨'[', _, rfl, by decide⟩

theorem starts_writeAt (d : Nat) (v : Value) : ∃ c cs, writeAt .line d v = c :: cs ∧ Starts c := by
  have hscalar : ∀ {cs' : List Char}, (∃ c cs, cs' = c :: cs ∧ Starts c ∧ StartsScalar c) →
      ∃ c cs, cs' = c :: cs ∧ Starts c := fun ⟨c, cs, h, hc, _⟩ => ⟨c, cs, h, hc⟩
  cases v with
  | null => exact ⟨'n', _, rfl, by decide⟩
  | bool b => cases b <;> exact ⟨_, _, rfl, by decide⟩
  | int n => exact hscalar (starts_int n)
  | float x => exact hscalar (starts_float x)
  | list items => exact starts_writeItems d items
  | tuple items => exact starts_writeItems d items
  | object fields => cases fields <;> exact ⟨'{', _, rfl, by decide⟩
  | _ => exact starts_writeText _

/-- Nothing is skipped in front of a value, and no closing bracket stands there. -/
theorem skip_writeAt (d : Nat) (v : Value) (cs : List Char) :
    skip (writeAt .line d v ++ cs) = writeAt .line d v ++ cs ∧
      ∀ cs', writeAt .line d v ++ cs ≠ ']' :: cs' := by
  obtain ⟨c, cs', h, hblank, hclosing⟩ := starts_writeAt d v
  rw [h, List.cons_append]
  refine ⟨?_, fun cs'' heq => hclosing (List.cons.inj heq).1⟩
  rw [skip, List.dropWhile_cons, hblank, if_neg Bool.false_ne_true]

/-- A reader's limits leave room for a text of length `n`. -/
structure Room (limits : Limits) (fuel depth n : Nat) : Prop where
  fuel : n ≤ fuel
  depth : n ≤ depth
  digits : n ≤ limits.digits

/-- A part of a text has at least one character less. -/
theorem Room.part {n m : Nat} (h : Room limits (fuel + 1) depth n) (hm : m < n) : Room limits fuel depth m :=
  ⟨Nat.le_of_lt_succ (Nat.lt_of_lt_of_le hm h.fuel), Nat.le_trans (Nat.le_of_lt hm) h.depth,
    Nat.le_trans (Nat.le_of_lt hm) h.digits⟩

/-- So has what stands behind a bracket, which is one level deeper. -/
theorem Room.inside {n : Nat} (h : Room limits (fuel + 1) (depth + 1) (n + 1)) : Room limits fuel depth n :=
  ⟨Nat.le_of_succ_le_succ h.fuel, Nat.le_of_succ_le_succ h.depth, Nat.le_of_succ_le h.digits⟩

theorem readValue_of_readScalar {cs : List Char} {v : Value}
    (hstarts : ∃ c cs', cs = c :: cs' ∧ Starts c ∧ StartsScalar c)
    (hread : readScalar limits (cs ++ rest) = some (v, rest)) :
    readValue limits (fuel + 1) depth (cs ++ rest) = .ok (v, rest) := by
  obtain ⟨c, cs', rfl, -, hc⟩ := hstarts
  rw [List.cons_append] at hread ⊢
  rw [readValue_scalar hc, hread]
  rfl

theorem length_writeAt_pos (d : Nat) (v : Value) : 0 < (writeAt .line d v).length := by
  obtain ⟨c, cs, h, -⟩ := starts_writeAt d v
  rw [h]
  exact Nat.succ_pos _

def itemsText (d : Nat) (v : Value) (items : List Value) : List Char :=
  writeAt .line d v ++ (writeMore .line d items ++ [']'])

def fieldsText (d : Nat) (f : String × Value) (fields : List (String × Value)) : List Char :=
  writeField .line d f ++ (writeMoreFields .line d fields ++ ['}'])

theorem writeItems_cons (d : Nat) (v : Value) (items : List Value) :
    writeItems .line d (v :: items) = '[' :: itemsText (d + 1) v items := by
  simp only [writeItems, lineBreak, itemsText, Style.line, List.append_assoc, List.cons_append, List.nil_append]

theorem writeAt_object_cons (d : Nat) (f : String × Value) (fields : List (String × Value)) :
    writeAt .line d (.object (f :: fields)) = '{' :: fieldsText (d + 1) f fields := by
  simp only [writeAt, lineBreak, fieldsText, Style.line, List.append_assoc, List.cons_append, List.nil_append]

theorem itemsText_cons (d : Nat) (v v' : Value) (items : List Value) :
    itemsText d v (v' :: items) = writeAt .line d v ++ (',' :: ' ' :: itemsText d v' items) := by
  simp only [itemsText, writeMore, separator, Style.line, List.append_assoc, List.cons_append, List.nil_append]

theorem fieldsText_cons (d : Nat) (f f' : String × Value) (fields : List (String × Value)) :
    fieldsText d f (f' :: fields) = writeField .line d f ++ (',' :: ' ' :: fieldsText d f' fields) := by
  simp only [fieldsText, writeMoreFields, separator, Style.line, List.append_assoc, List.cons_append,
    List.nil_append]

def ReadsValues (limits : Limits) (fuel : Nat) : Prop := ∀ (v : Value) (rest : List Char) {depth d : Nat},
  Room limits fuel depth (writeAt .line d v).length → Closed rest →
    readValue limits fuel depth (writeAt .line d v ++ rest) = .ok (v.asRead, rest)

def ReadsItems (limits : Limits) (fuel : Nat) : Prop :=
  ∀ (items : List Value) (v : Value) (rest : List Char) {depth d : Nat},
    Room limits fuel depth (itemsText d v items).length →
      readItems limits fuel depth (itemsText d v items ++ rest) = .ok (Value.itemsAsRead (v :: items), rest)

def ReadsFields (limits : Limits) (fuel : Nat) : Prop :=
  ∀ (fields : List (String × Value)) (f : String × Value) (rest : List Char) {depth d : Nat},
    Room limits fuel depth (fieldsText d f fields).length →
      readFields limits fuel depth (fieldsText d f fields ++ rest) = .ok (Value.fieldsAsRead (f :: fields), rest)

theorem ReadsItems.array (h : ReadsItems limits fuel) (items : List Value)
    (hroom : Room limits (fuel + 1) depth (writeItems .line d items).length) :
    readValue limits (fuel + 1) depth (writeItems .line d items ++ rest) =
      .ok (.list (Value.itemsAsRead items), rest) := by
  cases depth with
  | zero =>
    obtain ⟨c, cs, hcs, -⟩ := starts_writeItems d items
    have hdepth := hroom.depth
    rw [hcs] at hdepth
    exact absurd hdepth (Nat.not_succ_le_zero _)
  | succ depth =>
    cases items with
    | nil => rfl
    | cons v items =>
      rw [writeItems_cons] at hroom ⊢
      have hread := h items v rest hroom.inside
      -- The reader looks for the closing bracket first, and a value does not begin with it.
      obtain ⟨hskip, hclosing⟩ := skip_writeAt (d + 1) v (writeMore .line (d + 1) items ++ [']'] ++ rest)
      rw [List.cons_append, readValue]
      rw [itemsText, List.append_assoc] at hread ⊢
      rw [hskip]
      split
      · rename_i heq
        exact absurd heq (hclosing _)
      · rw [hread]
        rfl

theorem ReadsFields.object (h : ReadsFields limits fuel) (fields : List (String × Value))
    (hroom : Room limits (fuel + 1) depth (writeAt .line d (.object fields)).length) :
    readValue limits (fuel + 1) depth (writeAt .line d (.object fields) ++ rest) =
      .ok ((Value.object fields).asRead, rest) := by
  cases depth with
  | zero =>
    have hdepth := Nat.lt_of_lt_of_le (length_writeAt_pos d _) hroom.depth
    exact absurd hdepth (Nat.lt_irrefl 0)
  | succ depth =>
    cases fields with
    | nil => rfl
    | cons f fields =>
      rw [writeAt_object_cons] at hroom ⊢
      have hread := h fields f rest hroom.inside
      -- A field begins with a quote, so that the object is not read as an empty one.
      obtain ⟨cs, hcs⟩ : ∃ cs, fieldsText (d + 1) f fields ++ rest = '"' :: cs := by
        obtain ⟨name, v⟩ := f
        exact ⟨_, rfl⟩
      rw [List.cons_append]
      rw [hcs] at hread ⊢
      show (readFields limits fuel depth ('"' :: cs)).map _ = _
      rw [hread]
      rfl

theorem readsValues_succ (hitems : ReadsItems limits fuel) (hfields : ReadsFields limits fuel) :
    ReadsValues limits (fuel + 1) := by
  intro v rest depth d hroom hrest
  cases v with
  | null => exact readValue_of_readScalar ⟨_, _, rfl, by decide⟩ rfl
  | bool b => cases b <;> exact readValue_of_readScalar ⟨_, _, rfl, by decide⟩ rfl
  | int n => exact readValue_of_readScalar (starts_int n) (readScalar_int n hroom.digits hrest)
  | float x => exact readValue_of_readScalar (starts_float x) (readScalar_float x hrest)
  | list items => exact hitems.array items hroom
  | tuple items => exact hitems.array items hroom
  | object fields => exact hfields.object fields hroom
  | _ => exact readValue_writeText _

theorem readsItems_succ (hvalues : ReadsValues limits fuel) (hitems : ReadsItems limits fuel) :
    ReadsItems limits (fuel + 1) := by
  intro items v rest depth d hroom
  -- One item is read from the text up to what follows it: the closing bracket, or a comma and the rest.
  cases items with
  | nil =>
    have hlength : (writeAt .line d v).length < (itemsText d v []).length := by
      rw [itemsText, List.length_append, List.length_append, List.length_singleton]
      omega
    have hread := hvalues v (']' :: rest) (hroom.part hlength) (closed_cons (by decide))
    rw [itemsText, writeMore, List.nil_append, List.append_assoc, List.singleton_append, readItems, hread]
    rfl
  | cons v' items =>
    have hskip : skip (' ' :: (itemsText d v' items ++ rest)) = itemsText d v' items ++ rest := by
      show skip (itemsText d v' items ++ rest) = _
      rw [itemsText, List.append_assoc]
      exact (skip_writeAt d v' _).1
    rw [itemsText_cons, List.length_append, List.length_cons, List.length_cons] at hroom
    have hread := hvalues v (',' :: ' ' :: (itemsText d v' items ++ rest)) (d := d)
      (hroom.part (by omega)) (closed_cons (by decide))
    rw [itemsText_cons, List.append_assoc, List.cons_append, List.cons_append, readItems, hread]
    show (readItems limits fuel depth (skip (' ' :: (itemsText d v' items ++ rest))) >>= fun r =>
      return (v.asRead :: r.1, r.2)) = _
    rw [hskip, hitems items v' rest (hroom.part (by omega))]
    rfl

/-- A field is read up to what follows its value. -/
theorem readFields_field {name : String} {v : Value} {cs : List Char}
    (hvalue : readValue limits fuel depth (writeAt .line d v ++ cs) = .ok (v.asRead, cs)) :
    readFields limits (fuel + 1) depth (writeField .line d (name, v) ++ cs) =
      match skip cs with
      | ',' :: rest => do
        let (fields, rest) ← readFields limits fuel depth (skip rest)
        return ((name, v.asRead) :: fields, rest)
      | '}' :: rest => return ([(name, v.asRead)], rest)
      | _ => throw Problem.malformed := by
  have hskip : skip (' ' :: (writeAt .line d v ++ cs)) = writeAt .line d v ++ cs := (skip_writeAt d v cs).1
  have htext : writeField .line d (name, v) ++ cs =
      '"' :: (name.toList.flatMap (escapeChar false) ++ ['"'] ++ (':' :: ' ' :: (writeAt .line d v ++ cs))) := by
    simp only [writeField, writeText, Style.line, List.append_assoc, List.cons_append, List.nil_append]
  rw [htext, readFields, readText_writeText]
  show (readValue limits fuel depth (skip (' ' :: (writeAt .line d v ++ cs))) >>= _) = _
  rw [hskip, hvalue]
  rfl

theorem readsFields_succ (hvalues : ReadsValues limits fuel) (hfields : ReadsFields limits fuel) :
    ReadsFields limits (fuel + 1) := by
  intro fields f rest depth d hroom
  obtain ⟨name, v⟩ := f
  have hlength : (writeAt .line d v).length < (writeField .line d (name, v)).length := by
    simp only [writeField, List.length_append, List.length_cons]
    omega
  -- As with items, the field is read up to the closing brace, or up to a comma and the rest.
  cases fields with
  | nil =>
    rw [fieldsText, writeMoreFields, List.nil_append, List.length_append] at hroom
    have hread := hvalues v ('}' :: rest) (d := d) (hroom.part (by omega)) (closed_cons (by decide))
    rw [fieldsText, writeMoreFields, List.nil_append, List.append_assoc, List.singleton_append,
      readFields_field hread]
    rfl
  | cons f' fields =>
    have hskip : skip (' ' :: (fieldsText d f' fields ++ rest)) = fieldsText d f' fields ++ rest := by
      obtain ⟨name', v'⟩ := f'
      rfl
    rw [fieldsText_cons, List.length_append, List.length_cons, List.length_cons] at hroom
    have hread := hvalues v (',' :: ' ' :: (fieldsText d f' fields ++ rest)) (d := d)
      (hroom.part (by omega)) (closed_cons (by decide))
    rw [fieldsText_cons, List.append_assoc, List.cons_append, List.cons_append, readFields_field hread]
    show (readFields limits fuel depth (skip (' ' :: (fieldsText d f' fields ++ rest))) >>= fun r =>
      return ((name, v.asRead) :: r.1, r.2)) = _
    rw [hskip, hfields fields f' rest (hroom.part (by omega))]
    rfl

/-- With room enough a reader reads what was written: the induction is the reader's own, on its fuel. -/
theorem reads (limits : Limits) (fuel : Nat) :
    ReadsValues limits fuel ∧ ReadsItems limits fuel ∧ ReadsFields limits fuel := by
  induction fuel with
  | zero =>
    refine ⟨fun v _ _ d hroom => ?_, fun items v _ _ d hroom => ?_, fun fields f _ _ d hroom => ?_⟩
    · exact absurd (Nat.lt_of_lt_of_le (length_writeAt_pos d v) hroom.fuel) (Nat.lt_irrefl 0)
    · have hfuel := hroom.fuel
      rw [itemsText, List.length_append, List.length_append, List.length_singleton] at hfuel
      omega
    · have hfuel := hroom.fuel
      rw [fieldsText, List.length_append, List.length_append, List.length_singleton] at hfuel
      omega
  | succ fuel ih =>
    obtain ⟨hvalues, hitems, hfields⟩ := ih
    exact ⟨readsValues_succ hitems hfields, readsItems_succ hvalues hitems, readsFields_succ hvalues hfields⟩

/-- A document on one line reads back as what was written. -/
theorem read_write (v : Value) : read (.beyond (write .line v)) (write .line v) = .ok v.asRead := by
  have hskip : skip (writeAt .line 0 v) = writeAt .line 0 v := by
    rw [← List.append_nil (writeAt .line 0 v)]
    exact (skip_writeAt 0 v []).1
  have hlength : (write .line v).length = (writeAt .line 0 v).length := String.length_ofList
  have hroom : Room (.beyond (write .line v)) ((writeAt .line 0 v).length + 1) (write .line v).length
      (writeAt .line 0 v).length := ⟨Nat.le_succ _, Nat.le_of_eq hlength.symm, Nat.le_of_eq hlength.symm⟩
  have hread := (reads _ _).1 v [] hroom closed_nil
  rw [List.append_nil] at hread
  rw [read, write, String.toList_ofList, hskip]
  show (readValue (.beyond (write .line v)) ((writeAt .line 0 v).length + 1) (write .line v).length
    (writeAt .line 0 v) >>= fun r => if (skip r.2).isEmpty then return r.1 else throw Problem.malformed) = _
  rw [hread]
  rfl

/-! ## Control characters -/

def Printed (cs : List Char) : Prop := ∀ c ∈ cs, 0x20 ≤ c.toNat

instance : DecidablePred Printed := fun cs => List.decidableBAll (fun c : Char => 0x20 ≤ c.toNat) cs

theorem Printed.append {cs ds : List Char} (hcs : Printed cs) (hds : Printed ds) : Printed (cs ++ ds) := by
  intro c hc
  rcases List.mem_append.mp hc with hc | hc
  · exact hcs c hc
  · exact hds c hc

theorem Printed.cons {c : Char} {cs : List Char} (hc : 0x20 ≤ c.toNat) (hcs : Printed cs) : Printed (c :: cs) := by
  intro d hd
  rcases List.mem_cons.mp hd with rfl | hd
  · exact hc
  · exact hcs d hd

theorem printed_of_isDigit {cs : List Char} (h : ∀ c ∈ cs, isDigit c = true) : Printed cs := fun c hc =>
  Nat.le_trans (by decide) (isDigit_iff.mp (h c hc)).1

theorem printed_escapeChar (c : Char) : Printed (escapeChar false c) := by
  obtain ⟨e, h, -, he, -⟩ | ⟨hcontrol, h⟩ | ⟨hprinted, -, -, h⟩ := escapeChar_cases c <;> rw [h]
  · exact .cons (by decide) (.cons he fun _ h => nomatch h)
  · have hall : ∀ n < 0x20, Printed (unitEscape n) := by decide
    exact hall _ hcontrol
  · exact .cons hprinted fun _ h => nomatch h

theorem printed_writeText (s : String) : Printed (writeText false s) := by
  refine .cons (by decide) (.append (fun c hc => ?_) (by decide))
  obtain ⟨c', -, hc⟩ := List.mem_flatMap.mp hc
  exact printed_escapeChar c' c hc

theorem printed_signText (negative : Bool) : Printed (Decimal.signText negative) := by
  cases negative <;> decide

theorem printed_int (n : Int) : Printed (toString n).toList := by
  rw [toList_toString]
  exact (printed_signText _).append (printed_of_isDigit fun c => isDigit_of_mem_digits)

theorem printed_raised (x : Option Int) : Printed (raised x) := by
  cases x with
  | none => exact fun _ h => nomatch h
  | some x =>
    refine .cons (by decide) (.cons ?_ (printed_of_isDigit fun c => isDigit_of_mem_decimal))
    split <;> decide

theorem printed_float (x : Decimal) : Printed (writeFloat x) := by
  cases x with
  | nan => decide
  | infinity negative => cases negative <;> decide
  | finite negative n e h =>
    obtain ⟨ws, fs, x, hs⟩ := exists_spells h
    show Printed (Decimal.finite negative n e h).toText.toList
    rw [toList_toText, hs.text]
    refine (printed_signText _).append ((printed_of_isDigit hs.isWhole.digits).append (.append ?_ (printed_raised x)))
    cases fs with
    | nil => exact fun _ h => nomatch h
    | cons c fs => exact .cons (by decide) (printed_of_isDigit hs.digits)

mutual

theorem printed_writeAt : ∀ (v : Value) (d : Nat), Printed (writeAt .line d v)
  | .null, _ => (by decide : Printed "null".toList)
  | .bool true, _ => (by decide : Printed "true".toList)
  | .bool false, _ => (by decide : Printed "false".toList)
  | .int n, _ => printed_int n
  | .float x, _ => printed_float x
  | .text s, _ => printed_writeText s
  | .list items, d => printed_writeItems items d
  | .tuple items, d => printed_writeItems items d
  | .object [], _ => (by decide : Printed ['{', '}'])
  | .object (f :: fields), d => by
    rw [writeAt_object_cons]
    exact .cons (by decide) ((printed_writeField f (d + 1)).append
      ((printed_writeMoreFields fields (d + 1)).append (by decide)))
  | .state w, _ => printed_writeText w.name
  | .moment t universal, _ => printed_writeText _
  | .actor a, _ => printed_writeText _
  | .outcome o, _ => printed_writeText _
  | .fact key value, _ => printed_writeText _
  | .thing, _ => printed_writeText _

theorem printed_writeItems : ∀ (items : List Value) (d : Nat), Printed (writeItems .line d items)
  | [], _ => (by decide : Printed ['[', ']'])
  | v :: items, d => by
    rw [writeItems_cons]
    exact .cons (by decide) ((printed_writeAt v (d + 1)).append
      ((printed_writeMore items (d + 1)).append (by decide)))

theorem printed_writeMore : ∀ (items : List Value) (d : Nat), Printed (writeMore .line d items)
  | [], _ => fun _ h => nomatch h
  | v :: items, d =>
    .append (.append (by decide : Printed [',', ' ']) (printed_writeAt v d)) (printed_writeMore items d)

theorem printed_writeField : ∀ (f : String × Value) (d : Nat), Printed (writeField .line d f)
  | (name, v), d => .append (.append (printed_writeText name) (by decide)) (printed_writeAt v d)

theorem printed_writeMoreFields : ∀ (fields : List (String × Value)) (d : Nat),
    Printed (writeMoreFields .line d fields)
  | [], _ => fun _ h => nomatch h
  | f :: fields, d =>
    .append (.append (by decide : Printed [',', ' ']) (printed_writeField f d)) (printed_writeMoreFields fields d)

end

/-- A document on one line has no control character, so no line break either. -/
theorem printed_write (v : Value) : Printed (write .line v).toList := by
  rw [write, String.toList_ofList]
  exact printed_writeAt v 0

end Json

end ApprovalFlow
