import ApprovalFlow.Proofs.LogLine
import ApprovalFlow.Settings

/-!
# What several sources give together

Objects of texts that several sources give under one name come to one object: the maps put on top of each
other, the strongest last. Its keys are those of the weakest source, then what each stronger one adds. No
source gives a name twice, and no object that is read has a key twice.
-/

namespace ApprovalFlow

/-! ## Entries put on top of others -/

namespace Entries

variable {κ ν : Type} [DecidableEq κ]

/-- What is put on distinct keys is as if everything had been put one after another. -/
theorem update_eq_ofList {base : Entries κ ν} (h : (keys base).Nodup) (newer : Entries κ ν) :
    update base newer = ofList (base ++ newer) := by
  rw [ofList, List.foldl_append]
  show _ = newer.foldl _ (ofList base)
  rw [ofList_of_nodup h]
  rfl

theorem nodup_keys_update {base : Entries κ ν} (h : (keys base).Nodup) (newer : Entries κ ν) :
    (keys (update base newer)).Nodup := by
  rw [update_eq_ofList h]
  exact nodup_keys_ofList _

theorem keys_update {base : Entries κ ν} (h : (keys base).Nodup) (newer : Entries κ ν) :
    keys (update base newer) = (keys base ++ keys newer).eraseDups := by
  rw [update_eq_ofList h, keys_ofList, List.map_append]
  rfl

theorem get?_append (k : κ) (m n : Entries κ ν) : get? k (m ++ n) = (get? k m).or (get? k n) := by
  induction m with
  | nil => rfl
  | cons p m ih =>
    obtain ⟨a, v⟩ := p
    by_cases ha : a = k
    · simp only [List.cons_append, get?, ha, if_true, Option.some_or]
    · simp only [List.cons_append, get?, ha, if_false, ih]

theorem last?_of_nodup {m : Entries κ ν} (h : (keys m).Nodup) (k : κ) : last? k m = get? k m := by
  rw [← get?_ofList, ofList_of_nodup h]

theorem get?_update {base newer : Entries κ ν} (hbase : (keys base).Nodup) (hnewer : (keys newer).Nodup)
    (k : κ) :
    get? k (update base newer) = (get? k newer).or (get? k base) := by
  rw [update_eq_ofList hbase, get?_ofList, last?, List.reverse_append, get?_append]
  show (last? k newer).or (last? k base) = _
  rw [last?_of_nodup hnewer, last?_of_nodup hbase]

theorem eraseDups_concat (ks : List κ) (k : κ) :
    (ks ++ [k]).eraseDups = if k ∈ ks then ks.eraseDups else ks.eraseDups ++ [k] := by
  rw [List.eraseDups_append]
  by_cases hk : k ∈ ks
  · have hnone : [k].removeAll ks = [] := by simp [List.removeAll, hk]
    rw [if_pos hk, hnone, List.eraseDups_nil, List.append_nil]
  · have hone : [k].removeAll ks = [k] := by simp [List.removeAll, hk]
    rw [if_neg hk, hone]
    rfl

/-- Of keys after others, repetitions may go before or after. -/
theorem eraseDups_append_eraseDups (ks ks' : List κ) :
    (ks ++ ks'.eraseDups).eraseDups = (ks ++ ks').eraseDups := by
  -- From the end, where a key is dropped on both sides or on neither.
  induction ks' using List.reverseRecOn with
  | nil => rfl
  | append_singleton ks' k ih =>
    have hmem : k ∈ ks ++ ks'.eraseDups ↔ k ∈ ks ++ ks' := by
      rw [List.mem_append, List.mem_append, List.mem_eraseDups]
    rw [← List.append_assoc, eraseDups_concat, eraseDups_concat, ← ih]
    by_cases hk : k ∈ ks'
    · rw [if_pos hk, if_pos (List.mem_append_right _ hk)]
    · rw [if_neg hk, ← List.append_assoc, eraseDups_concat]
      simp only [hmem]

/-- The keys of three maps on top of each other are those of the lowest, then what each higher one adds. -/
theorem keys_update_update {low mid : Entries κ ν} (hlow : (keys low).Nodup) (hmid : (keys mid).Nodup)
    (high : Entries κ ν) :
    keys (update low (update mid high)) = (keys low ++ keys mid ++ keys high).eraseDups := by
  rw [keys_update hlow, keys_update hmid, eraseDups_append_eraseDups, List.append_assoc]

/-- Of three maps on top of each other, the highest that has a key gives its value. -/
theorem get?_update_update {low mid high : Entries κ ν} (hlow : (keys low).Nodup) (hmid : (keys mid).Nodup)
    (hhigh : (keys high).Nodup) (k : κ) :
    get? k (update low (update mid high)) = [high, mid, low].findSome? (get? k) := by
  rw [get?_update hlow (nodup_keys_update hmid high), get?_update hmid hhigh]
  cases h : get? k high <;> cases h' : get? k mid <;> cases h'' : get? k low <;>
    simp [h, h', h'']

theorem get?_of_mem {m : Entries κ ν} (h : (keys m).Nodup) {p : κ × ν} (hp : p ∈ m) :
    get? p.1 m = some p.2 := by
  induction m with
  | nil => cases hp
  | cons q m ih =>
    obtain ⟨hq, hm⟩ : q.1 ∉ keys m ∧ (keys m).Nodup := List.nodup_cons.mp h
    rcases List.mem_cons.mp hp with rfl | hp
    · rw [get?, if_pos rfl]
    · have hne : q.1 ≠ p.1 := by
        intro heq
        rw [heq] at hq
        exact hq (List.mem_map_of_mem hp)
      rw [get?, if_neg hne, ih hm hp]

/-! ## Values changed or dropped -/

variable {ν' : Type}

omit [DecidableEq κ] in
theorem keys_mapValues (f : ν → ν') (m : Entries κ ν) : keys (m.map fun p => (p.1, f p.2)) = keys m := by
  simp only [keys, List.map_map]
  rfl

theorem get?_mapValues (f : ν → ν') (m : Entries κ ν) (k : κ) :
    get? k (m.map fun p => (p.1, f p.2)) = (get? k m).map f := by
  induction m with
  | nil => rfl
  | cons p m ih =>
    obtain ⟨a, v⟩ := p
    by_cases ha : a = k
    · simp only [List.map_cons, get?, ha, if_true, Option.map_some]
    · simp only [List.map_cons, get?, ha, if_false, ih]

/-- Of distinct keys, those whose value is dropped have none. -/
theorem get?_filterValues {m : Entries κ ν} (h : (keys m).Nodup) (q : ν → Bool) (k : κ) :
    get? k (m.filter fun p => q p.2) = (get? k m).filter q := by
  induction m with
  | nil => rfl
  | cons p m ih =>
    obtain ⟨a, v⟩ := p
    obtain ⟨ha, hm⟩ : a ∉ keys m ∧ (keys m).Nodup := List.nodup_cons.mp h
    have hnone : get? a m = none := Option.not_isSome_iff_eq_none.mp (mt mem_keys_iff.mpr ha)
    rw [List.filter_cons]
    cases hq : q v with
    | true =>
      by_cases hk : a = k
      · simp [get?, hk, hq, Option.filter]
      · simp [get?, hk, ih hm]
    | false =>
      by_cases hk : a = k
      · subst hk
        simp [get?, hq, ih hm, hnone, Option.filter]
      · simp [get?, hk, ih hm]

/-- The keys that stay keep their order. -/
theorem keys_filterValues {m : Entries κ ν} (h : (keys m).Nodup) (q : ν → Bool) :
    keys (m.filter fun p => q p.2) = (keys m).filter fun k => ((get? k m).filter q).isSome := by
  rw [keys, keys, List.filter_map]
  congr 1
  apply List.filter_congr
  intro p hp
  cases hq : q p.2 <;> simp [get?_of_mem h hp, hq]

end Entries

/-! ## Objects that are read -/

namespace Json

variable {limits : Limits} {cs rest : List Char} {fields : List (String × Value)}

/-- A word or a number is no object. -/
theorem readScalar_ne_object : readScalar limits cs ≠ some (.object fields, rest) := by
  -- A scalar is a word, whose value is given with it, or an unsigned number with or without its sign.
  have hnumber : ∀ negative cs, readUnsigned limits negative cs ≠ some (.object fields, rest) := by
    intro negative cs h
    simp only [readUnsigned, Option.bind_eq_bind, Option.bind_eq_some_iff] at h
    obtain ⟨whole, -, h⟩ := h
    split at h
    · split at h <;> cases h
    · cases h
  have hword : ∀ word v, v ≠ Value.object fields →
      (afterWord word cs).map (fun rest => (v, rest)) ≠ some (.object fields, rest) := by
    intro word v hv h
    obtain ⟨_, -, h⟩ := Option.map_eq_some_iff.mp h
    exact hv (congrArg Prod.fst h)
  unfold readScalar
  dsimp only
  split
  case h_7 | h_8 => exact hnumber _ _
  all_goals exact hword _ _ (by simp)

theorem nodup_of_readValue {fuel depth : Nat} (h : readValue limits fuel depth cs = .ok (.object fields, rest)) :
    (Entries.keys fields).Nodup := by
  -- Only after an opening brace is an object read; a list and a scalar are something else.
  unfold readValue at h
  split at h
  case h_6 =>
    split at h
    · cases h
      exact List.nodup_nil
    · simp only [Except.map] at h
      split at h
      · cases h
      · cases h
        exact Entries.nodup_keys_ofList _
  case h_2 =>
    simp only [Except.map] at h
    split at h <;> cases h
  case h_5 =>
    simp only [Except.map] at h
    split at h
    · cases h
    · split at h <;> cases h
  case h_7 =>
    unfold orMalformed at h
    split at h
    · rename_i hscalar
      cases h
      exact absurd hscalar readScalar_ne_object
    · cases h
  all_goals cases h

/-- An object that is read from a document has distinct keys. -/
theorem nodup_of_read {s : String} (h : read limits s = .ok (.object fields)) : (Entries.keys fields).Nodup := by
  simp only [read] at h
  cases hv : readValue limits ((skip s.toList).length + 1) limits.depth (skip s.toList) with
  | error p =>
    rw [hv] at h
    cases h
  | ok read =>
    obtain ⟨v, rest⟩ := read
    rw [hv] at h
    dsimp only [bind, Except.bind] at h
    split at h
    · cases h
      exact nodup_of_readValue hv
    · cases h

end Json

/-! ## The maps of several sources -/

namespace Settings

variable {sources : Sources} {name : String} {weak strong : Entries String Value}

theorem texts?_cons (key : String) (v : Value) (fields : List (String × Value)) :
    texts? ((key, v) :: fields) = (textOf? v).bind fun s => (texts? fields).map fun map => (key, s) :: map := by
  cases h : textOf? v <;> cases h' : texts? fields <;> simp_all [texts?, List.mapM_cons]

theorem texts?_cons_eq_some {key : String} {v : Value} {fields : List (String × Value)}
    {map : Entries String String} :
    texts? ((key, v) :: fields) = some map ↔
      ∃ s rest, textOf? v = some s ∧ texts? fields = some rest ∧ map = (key, s) :: rest := by
  rw [texts?_cons, Option.bind_eq_some_iff]
  constructor
  · intro h
    obtain ⟨s, hs, h⟩ := h
    obtain ⟨rest, hrest, hmap⟩ := Option.map_eq_some_iff.mp h
    exact ⟨s, rest, hs, hrest, hmap.symm⟩
  · intro h
    obtain ⟨s, rest, hs, hrest, hmap⟩ := h
    exact ⟨s, hs, by rw [hrest, hmap, Option.map_some]⟩

/-- An object of texts has the keys of its map. -/
theorem keys_of_texts? {fields : List (String × Value)} {map : Entries String String}
    (h : texts? fields = some map) :
    Entries.keys map = fields.map (·.1) := by
  induction fields generalizing map with
  | nil =>
    cases h
    rfl
  | cons field fields ih =>
    obtain ⟨s, rest, -, hrest, rfl⟩ := texts?_cons_eq_some.mp h
    have hkeys := ih hrest
    simp only [Entries.keys, List.map_cons] at hkeys ⊢
    rw [hkeys]

theorem texts?_put {fields : List (String × Value)} {map : Entries String String} {v : Value} {s : String}
    (hfields : texts? fields = some map) (hv : textOf? v = some s) (key : String) :
    texts? (Entries.put key v fields) = some (Entries.put key s map) := by
  induction fields generalizing map with
  | nil =>
    cases hfields
    exact texts?_cons_eq_some.mpr ⟨s, [], hv, rfl, rfl⟩
  | cons field fields ih =>
    obtain ⟨key', v'⟩ := field
    obtain ⟨s', rest, hs', hrest, rfl⟩ := texts?_cons_eq_some.mp hfields
    by_cases hkey : key' = key
    · rw [Entries.put, if_pos hkey, Entries.put, if_pos hkey]
      exact texts?_cons_eq_some.mpr ⟨s, rest, hv, hrest, rfl⟩
    · rw [Entries.put, if_neg hkey, Entries.put, if_neg hkey]
      exact texts?_cons_eq_some.mpr ⟨s', _, hs', ih hrest, rfl⟩

/-- A text counts as it is, whatever it is laid on. -/
theorem overlayFields_cons_of_textOf? {v : Value} {s : String} (h : textOf? v = some s)
    (base rest : List (String × Value)) (key : String) :
    overlayFields base ((key, v) :: rest) = overlayFields (Entries.put key v base) rest := by
  rw [overlayFields]
  cases Entries.get? key base with
  | none => rfl
  | some weak =>
    cases v with
    | object fields => cases h
    | _ => simp only [overlay]

/-- Objects of texts on top of each other give their maps on top of each other. -/
theorem texts?_overlayFields {base fields : List (String × Value)} {map map' : Entries String String}
    (hbase : texts? base = some map) (hfields : texts? fields = some map') :
    texts? (overlayFields base fields) = some (Entries.update map map') := by
  -- By induction on what is laid on top: each of its texts goes into the map below.
  induction fields generalizing base map map' with
  | nil =>
    cases hfields
    exact hbase
  | cons field fields ih =>
    obtain ⟨key, v⟩ := field
    obtain ⟨s, rest, hs, hrest, rfl⟩ := texts?_cons_eq_some.mp hfields
    rw [overlayFields_cons_of_textOf? hs]
    show _ = some (Entries.update (Entries.put key s map) rest)
    exact ih (texts?_put hbase hs key) hrest

/-- What two sources give under a name is the map of the weaker with that of the stronger on top. -/
theorem mapUnder?_overlayFields {map map' : Entries String String} (hkeys : (Entries.keys strong).Nodup)
    (hmap' : (Entries.keys map').Nodup) (hweak : mapUnder? name weak = some map)
    (hstrong : mapUnder? name strong = some map') :
    mapUnder? name (overlayFields weak strong) = some (Entries.update map map') := by
  -- Two objects are merged; where only one source gives anything, that is what counts.
  have hget := get?_overlayFields weak strong name hkeys
  unfold mapUnder? at hstrong
  split at hstrong
  · rename_i hnone
    cases hstrong
    rw [hnone] at hget
    rw [mapUnder?, hget]
    exact hweak
  · rename_i fields hfields
    rw [hfields] at hget
    unfold mapUnder? at hweak
    split at hweak
    · rename_i hnone
      cases hweak
      rw [hnone] at hget
      rw [mapUnder?, hget]
      show texts? fields = some (Entries.ofList map')
      rw [Entries.ofList_of_nodup hmap', hstrong]
    · rename_i base hbase
      rw [hbase] at hget
      rw [mapUnder?, hget]
      simp only [overlay]
      exact texts?_overlayFields hweak hstrong
    · cases hweak
  · cases hstrong

/-! ## Distinct keys in what a source gives -/

/-- What a source gives: no name twice, and no key twice in an object. -/
structure Distinct (found : Entries String Value) : Prop where
  names : (Entries.keys found).Nodup
  keys : ∀ name fields, Entries.get? name found = some (.object fields) → (Entries.keys fields).Nodup

theorem Distinct.nil : Distinct [] where
  names := List.nodup_nil
  keys _ _ h := by cases h

theorem Distinct.put {found : Entries String Value} (h : Distinct found) (name : String) {v : Value}
    (hv : ∀ fields, v = .object fields → (Entries.keys fields).Nodup) :
    Distinct (Entries.put name v found) where
  names := Entries.nodup_keys_put h.names name v
  keys name' fields hget := by
    rw [Entries.get?_put] at hget
    by_cases hname : name = name'
    · rw [if_pos hname] at hget
      exact hv fields (Option.some.inj hget)
    · rw [if_neg hname] at hget
      exact h.keys name' fields hget

theorem Distinct.ofList {pairs : List (String × Value)}
    (h : ∀ p ∈ pairs, ∀ fields, p.2 = .object fields → (Entries.keys fields).Nodup) :
    Distinct (Entries.ofList pairs) := by
  induction pairs using List.reverseRecOn with
  | nil => exact .nil
  | append_singleton pairs p ih =>
    rw [Entries.ofList_concat]
    exact (ih fun q hq => h q (List.mem_append_left _ hq)).put p.1 (h p (by simp))

theorem Distinct.nodup_mapUnder? {found : Entries String Value} {map : Entries String String} (h : Distinct found)
    (hmap : mapUnder? name found = some map) : (Entries.keys map).Nodup := by
  unfold mapUnder? at hmap
  split at hmap
  · cases hmap
    exact List.nodup_nil
  · rename_i fields hfields
    rw [keys_of_texts? hmap]
    exact h.keys name fields hfields
  · cases hmap

theorem nodup_overlayFields {base : List (String × Value)} (h : (Entries.keys base).Nodup)
    (fields : List (String × Value)) : (Entries.keys (overlayFields base fields)).Nodup := by
  induction fields generalizing base with
  | nil => exact h
  | cons field fields ih => exact ih (Entries.nodup_keys_put h _ _)

theorem nodup_putAt {leaf : Leaf} {fields : List (String × Value)} (h : (Entries.keys fields).Nodup)
    (path : List String) : (Entries.keys (putAt leaf path fields)).Nodup := by
  unfold putAt
  split
  · exact h
  · unfold putLeaf
    split
    · exact Entries.nodup_keys_put h _ _
    · exact Entries.nodup_keys_put h _ _
    · split
      · exact h
      · exact Entries.nodup_keys_put h _ _
  · split
    · exact Entries.nodup_keys_put h _ _
    · exact Entries.nodup_keys_put h _ _
    · exact h

variable {ε α β : Type}

theorem bind_eq_ok {r : Except ε α} {f : α → Except ε β} {b : β} (h : r >>= f = .ok b) :
    ∃ a, r = .ok a ∧ f a = .ok b := by
  cases r with
  | error p => cases h
  | ok a => exact ⟨a, rfl, h⟩

theorem foldlM_keeps {P : β → Prop} {f : β → α → Except ε β}
    (hstep : ∀ b a b', P b → f b a = .ok b' → P b') {l : List α} {b b' : β} (hb : P b)
    (h : l.foldlM f b = .ok b') : P b' := by
  induction l generalizing b with
  | nil =>
    cases h
    exact hb
  | cons a l ih =>
    rw [List.foldlM_cons] at h
    obtain ⟨b₁, hb₁, h⟩ := bind_eq_ok h
    exact ih (hstep b a b₁ hb hb₁) h

variable {m : Manner} {source : Source} {vars : Variables}

theorem nodup_nested {name : Name} {fields : List (String × Value)} (h : m.nested name vars = .ok fields) :
    (Entries.keys fields).Nodup := by
  unfold Manner.nested at h
  split at h
  · cases h
    exact List.nodup_nil
  · have hnil : (Entries.keys ([] : List (String × Value))).Nodup := List.nodup_nil
    -- Each variable either is passed over or puts a leaf somewhere into what there is.
    refine foldlM_keeps (P := fun fields => (Entries.keys fields).Nodup) ?_ hnil h
    intro fields var fields' hfields hvar
    dsimp only at hvar
    split at hvar
    · cases hvar
      exact hfields
    · cases hproblem : m.keysProblem with
      | some p =>
        rw [hproblem] at hvar
        cases hvar
      | none =>
        rw [hproblem] at hvar
        obtain ⟨leaf, -, hvar⟩ := bind_eq_ok hvar
        cases hvar
        exact nodup_putAt hfields _

theorem nodup_approversText {text : String} {fields : List (String × Value)}
    (h : m.approversText source vars text = .ok (some (.object fields))) : (Entries.keys fields).Nodup := by
  unfold Manner.approversText at h
  split at h
  · cases h
  · split at h
    · cases h
    · cases h
    · cases h
    · rename_i read hread
      obtain ⟨nested, -, h⟩ := bind_eq_ok h
      cases h
      exact nodup_overlayFields (Json.nodup_of_read hread) nested
    · rename_i v hv _ _ hread
      cases h
      exact Json.nodup_of_read hread

theorem nodup_approversIn {name : String} {fields : List (String × Value)}
    (h : m.approversIn source vars = .ok (some (name, .object fields))) : (Entries.keys fields).Nodup := by
  unfold Manner.approversIn at h
  split at h
  · obtain ⟨found, hfound, h⟩ := bind_eq_ok h
    cases found with
    | none => cases h
    | some v =>
      cases h
      exact nodup_approversText hfound
  · obtain ⟨nested, hnested, h⟩ := bind_eq_ok h
    split at h
    · cases h
    · cases h
      exact nodup_nested hnested

theorem value_ne_object (text : String) (fields : List (String × Value)) : m.value text ≠ .object fields := by
  unfold Manner.value
  split <;> simp

theorem distinct_settingsIn {found : Entries String Value} (h : m.settingsIn source vars = .ok found) :
    Distinct found := by
  unfold Manner.settingsIn at h
  split at h
  · cases h
  · obtain ⟨approvers, happrovers, h⟩ := bind_eq_ok h
    cases h
    refine .ofList ?_
    intro p hp fields hfields
    rcases List.mem_append.mp hp with hp | hp
    · rw [Option.mem_toList] at hp
      obtain ⟨_, -, rfl⟩ := Option.map_eq_some_iff.mp hp
      exact absurd hfields (value_ne_object _ fields)
    · obtain ⟨name, v⟩ := p
      cases hfields
      rw [Option.mem_toList] at hp
      rw [hp] at happrovers
      exact nodup_approversIn happrovers

theorem Distinct.addOther {found : Entries String Value} (h : Distinct found) (key text : String) :
    Distinct (m.addOther found key text) := by
  unfold Manner.addOther
  dsimp only
  split
  · exact h
  · apply h.put
    intro fields hfields
    cases hfields

theorem distinct_settingsInFile {found : Entries String Value} (h : m.settingsInFile vars = .ok found) :
    Distinct found := by
  obtain ⟨settings, hsettings, h⟩ := bind_eq_ok h
  cases h
  refine List.foldlRecOn (motive := Distinct) vars _ (distinct_settingsIn hsettings) ?_
  intro found hfound var _
  dsimp only
  split
  · exact hfound
  · split
    · exact hfound
    · exact hfound.addOther var.1 _

end Settings

end ApprovalFlow
