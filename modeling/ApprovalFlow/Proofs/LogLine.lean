import ApprovalFlow.Logging.Record
import ApprovalFlow.Proofs.RoundTrip
import Mathlib.Algebra.Group.Int.Defs
import Mathlib.Algebra.Group.Nat.Defs
import Mathlib.Data.List.Induction
import Mathlib.Data.List.Nodup

/-!
# What a log line says

A line is one object, and reads back as what its record said: the time, the level, the logger, the id of a
workflow where one was set, the message, the other values under `fields`, and the failure. The values keep the
order in which their names were first set, each with what was set last (`lastSettings`). Whatever they are named
and whatever they hold, they reach no other member. There is a line just when a calendar has the time of the
record and there is room for its values (`line_reads_back`).
-/

namespace ApprovalFlow

/-! ## Values set one after another -/

namespace Entries

variable {κ ν : Type} [DecidableEq κ]

def last? (k : κ) (pairs : List (κ × ν)) : Option ν := get? k pairs.reverse

/-- The keys in the order in which they were first set, each with what was set under it last. -/
def lastSettings (pairs : List (κ × ν)) : Entries κ ν :=
  (pairs.map (·.1)).eraseDups.filterMap fun k => (last? k pairs).map (k, ·)

/-- Something was last set under a key just when something was set under it. -/
theorem last?_isSome_iff {k : κ} {pairs : List (κ × ν)} : (last? k pairs).isSome ↔ k ∈ pairs.map (·.1) := by
  rw [last?, ← mem_keys_iff, keys, List.map_reverse, List.mem_reverse]

theorem ofList_concat (pairs : List (κ × ν)) (p : κ × ν) :
    ofList (pairs ++ [p]) = put p.1 p.2 (ofList pairs) := by
  simp only [ofList, List.foldl_append, List.foldl_cons, List.foldl_nil]

theorem nodup_keys_ofList (pairs : List (κ × ν)) : (keys (ofList pairs)).Nodup := by
  induction pairs using List.reverseRecOn with
  | nil => exact List.nodup_nil
  | append_singleton pairs p ih =>
    rw [ofList_concat]
    exact nodup_keys_put ih p.1 p.2

theorem get?_ofList (k : κ) (pairs : List (κ × ν)) : get? k (ofList pairs) = last? k pairs := by
  induction pairs using List.reverseRecOn with
  | nil => rfl
  | append_singleton pairs p ih =>
    rw [ofList_concat, get?_put, ih, last?, last?, List.reverse_append, List.reverse_singleton,
      List.singleton_append]
    rfl

theorem keys_ofList (pairs : List (κ × ν)) : keys (ofList pairs) = (pairs.map (·.1)).eraseDups := by
  induction pairs using List.reverseRecOn with
  | nil => rfl
  | append_singleton pairs p ih =>
    rw [ofList_concat, keys_put, ih, List.map_append, List.eraseDups_append]
    by_cases hp : p.1 ∈ pairs.map (·.1)
    · have hnone : [p.1].removeAll (pairs.map (·.1)) = [] :=
        List.filter_eq_nil_iff.mpr fun k hk => by
          rw [List.mem_singleton.mp hk, List.elem_eq_mem, decide_eq_true hp]
          decide
      rw [if_pos (List.mem_eraseDups.mpr hp), List.map_cons, List.map_nil, hnone]
      exact (List.append_nil _).symm
    · have hone : [p.1].removeAll (pairs.map (·.1)) = [p.1] :=
        List.filter_eq_self.mpr fun k hk => by
          rw [List.mem_singleton.mp hk, List.elem_eq_mem, decide_eq_false hp]
          rfl
      rw [if_neg fun h => hp (List.mem_eraseDups.mp h), List.map_cons, List.map_nil, hone]
      rfl

/-- Entries under distinct keys are what reading each key gives. -/
theorem eq_filterMap_keys {m : Entries κ ν} (h : (keys m).Nodup) :
    (keys m).filterMap (fun k => (get? k m).map (k, ·)) = m := by
  induction m with
  | nil => rfl
  | cons p m ih =>
    obtain ⟨k, v⟩ := p
    obtain ⟨hk, hm⟩ : k ∉ keys m ∧ (keys m).Nodup := List.nodup_cons.mp h
    have hget : ∀ k' ∈ keys m, get? k' ((k, v) :: m) = get? k' m := fun k' hk' => by
      have hne : k ≠ k' := fun heq => hk (heq ▸ hk')
      rw [get?, if_neg hne]
    have hhead : get? k ((k, v) :: m) = some v := by rw [get?, if_pos rfl]
    show (k :: keys m).filterMap _ = _
    rw [List.filterMap_cons, hhead]
    show (k, v) :: (keys m).filterMap _ = _
    rw [List.filterMap_congr fun k' hk' => by rw [hget k' hk'], ih hm]

/-- Values set one after another leave the last of each key, in the order of the keys' first. -/
theorem ofList_eq_lastSettings (pairs : List (κ × ν)) : ofList pairs = lastSettings pairs := by
  rw [← eq_filterMap_keys (nodup_keys_ofList pairs), keys_ofList, lastSettings]
  simp only [get?_ofList]

end Entries

/-! ## Numbers that there is room for -/

theorem Value.fits_int_iff {limits : Limits} {opened : Nat} {n : Int} (h : 0 < limits.digits) :
    (Value.int n).Fits limits opened ↔ n.natAbs < 10 ^ limits.digits := by
  have hlength : (Text.digits 10 n.natAbs).length ≤ limits.digits ↔ n.natAbs < 10 ^ limits.digits :=
    Nat.length_toDigits_le_iff (by decide) h
  rw [← hlength]
  simp only [Value.Fits, Value.excessWithin?, Value.excessOfInt?, ite_eq_right_iff, reduceCtorEq, imp_false, Nat.not_lt]

namespace Logging

open Json (Printed)

/-! ## Values set on a record -/

/-- The name under which a record's whole content can be set. -/
def contentName : String := "__dict__"

def isField (name : String) : Bool := name != workflowIdName && !name.startsWith "_"

namespace Record

def setAll (r : Record) (values : List (String × Value)) : Record :=
  values.foldl (fun r (name, v) => r.set name v) r

def withExtras (r : Record) (extras : Entries String Value) : Record := { r with extras }

theorem instant_withExtras (r : Record) (extras : Entries String Value) :
    (r.withExtras extras).instant = r.instant := by
  unfold instant
  rfl

theorem instant_congr {r r' : Record} (h : r.created = r'.created) : r.instant = r'.instant := by
  unfold instant
  rw [h]

/-- An instant that a record can show, because a calendar has it. -/
def Datable (created : Instant) : Prop :=
  ∃ t, (make "" Level.unset .null [] created none).instant = .ok t

/-- `r'` is `r` with values set one after another, either as they are or through the record. -/
def Given (r : Record) (values : List (String × Value)) (r' : Record) : Prop :=
  r' = r.setAll values ∨ r.assignAll values = .ok r' ∧ ∀ p ∈ values, p.1 ≠ contentName

variable {r r' : Record} {values : List (String × Value)} {limits : Limits}

theorem setAll_concat (p : String × Value) : r.setAll (values ++ [p]) = (r.setAll values).set p.1 p.2 := by
  rw [setAll, List.foldl_append]
  rfl

/-- A value that is set through the record at all is set as it is. -/
theorem assign_eq_ok {name : String} {v : Value} (hname : name ≠ contentName) (h : r.assign name v = .ok r') :
    r' = r.set name v := by
  unfold assign at h
  split at h
  · cases h
  split at h
  · cases h
  rw [if_neg (show ¬name = "__dict__" from hname)] at h
  exact (Except.ok.inj h).symm

theorem Given.eq_setAll (h : r.Given values r') : r' = r.setAll values := by
  rcases h with h | ⟨h, hnames⟩
  · exact h
  induction values generalizing r with
  | nil => exact (Except.ok.inj h).symm
  | cons p values ih =>
    obtain ⟨name, v⟩ := p
    rw [assignAll, List.foldlM_cons] at h
    dsimp only at h
    cases hassign : r.assign name v with
    | error x =>
      rw [hassign] at h
      cases h
    | ok r₁ =>
      rw [hassign, assign_eq_ok (hnames _ List.mem_cons_self) hassign] at h
      exact ih h fun q hq => hnames q (List.mem_cons_of_mem _ hq)

/-- A value whose name is not reserved is one more value. -/
theorem set_of_not_reserved {name : String} (h : name ∉ reservedNames) (v : Value) (hlacks : r.lacks = []) :
    r.set name v = r.withExtras (Entries.put name v r.extras) := by
  have hne : ∀ n ∈ reservedNames, name ≠ n := fun n hn heq => h (heq ▸ hn)
  have hcontains : reservedNames.contains name = false := by
    rw [← Bool.not_eq_true, List.contains_iff_mem]
    exact h
  unfold set
  rw [if_neg (hne _ (by decide)), if_neg (hne _ (by decide)), if_neg (hne _ (by decide)),
    if_neg (hne _ (by decide)), if_neg (hne _ (by decide)), if_neg (hne _ (by decide)), hcontains,
    if_neg Bool.false_ne_true]
  cases r
  cases hlacks
  rfl

theorem setAll_of_not_reserved (hnames : ∀ p ∈ values, p.1 ∉ reservedNames) (hlacks : r.lacks = [])
    (hextras : r.extras = []) : r.setAll values = r.withExtras (Entries.ofList values) := by
  induction values using List.reverseRecOn with
  | nil =>
    cases r
    cases hextras
    rfl
  | append_singleton values p ih =>
    have hp : p.1 ∉ reservedNames := hnames p (List.mem_append_right _ (List.mem_singleton_self p))
    rw [setAll_concat, ih fun q hq => hnames q (List.mem_append_left _ hq),
      set_of_not_reserved (r := r.withExtras (Entries.ofList values)) hp p.2 hlacks, Entries.ofList_concat]
    rfl

/-! ## What a line says -/

/-- The members of a line in their order, with the workflow's id, the other values and the failure where there
are such. -/
def membersOf (t : Instant) (level logger : Value) (id : Option Value) (message : String)
    (fields : List (String × Value)) (failure : Option String) : List (String × Value) :=
  [("timestamp", .text (t.stamp 'T' ++ "+00:00")), ("level", level), ("logger", logger)] ++
    (match id with
      | some v => [(workflowIdName, v)]
      | none => []) ++
    [("message", .text message)] ++ (if fields.isEmpty then [] else [("fields", .object fields)]) ++
    (match failure with
      | some text => [("exception", .text text)]
      | none => [])

def asReadAll (values : List (String × Value)) : List (String × Value) :=
  values.map fun p => (p.1, p.2.asRead)

def fieldsOf (values : List (String × Value)) : List (String × Value) :=
  (Entries.lastSettings values).filter fun p => isField p.1

/-- There are such values just when one of that kind was set. -/
theorem fieldsOf_ne_nil_iff {values : List (String × Value)} :
    fieldsOf values ≠ [] ↔ ∃ p ∈ values, isField p.1 = true := by
  have hmem : ∀ name, (∃ v, (name, v) ∈ Entries.lastSettings values) ↔ name ∈ values.map (·.1) := by
    intro name
    rw [← Entries.ofList_eq_lastSettings, ← List.mem_eraseDups, ← Entries.keys_ofList]
    exact ⟨fun ⟨v, hv⟩ => List.mem_map_of_mem (f := (·.1)) hv, fun h => by
      obtain ⟨⟨_, v⟩, hv, rfl⟩ := List.mem_map.mp h
      exact ⟨v, hv⟩⟩
  rw [fieldsOf, Ne, List.filter_eq_nil_iff]
  push Not
  constructor
  · rintro ⟨⟨name, v⟩, hv, hfield⟩
    obtain ⟨p, hp, rfl⟩ := List.mem_map.mp ((hmem name).mp ⟨v, hv⟩)
    exact ⟨p, hp, hfield⟩
  · rintro ⟨p, hp, hfield⟩
    obtain ⟨v, hv⟩ := (hmem p.1).mpr (List.mem_map_of_mem hp)
    exact ⟨(p.1, v), hv, hfield⟩

def memberNames (id fields failure : Bool) : List String :=
  ["timestamp", "level", "logger"] ++ (if id then [workflowIdName] else []) ++ ["message"] ++
    (if fields then ["fields"] else []) ++ (if failure then ["exception"] else [])

theorem map_membersOf (t : Instant) (level logger : Value) (id : Option Value) (message : String)
    (fields : List (String × Value)) (failure : Option String) :
    (membersOf t level logger id message fields failure).map (·.1) =
      memberNames id.isSome (!fields.isEmpty) failure.isSome := by
  cases id <;> cases fields <;> cases failure <;> rfl

theorem nodup_membersOf (t : Instant) (level logger : Value) (id : Option Value) (message : String)
    (fields : List (String × Value)) (failure : Option String) :
    ((membersOf t level logger id message fields failure).map (·.1)).Nodup := by
  have hnames : ∀ id fields failure, (memberNames id fields failure).Nodup := by decide
  rw [map_membersOf]
  exact hnames _ _ _

/-- Members read back one by one. -/
theorem asReadAll_membersOf {t : Instant} {level logger : Value} {id : Option Value} {message : String}
    {fields : List (String × Value)} {failure : Option String} (hfields : (fields.map (·.1)).Nodup) :
    asReadAll (membersOf t level logger id message fields failure) =
      membersOf t level.asRead logger.asRead (id.map Value.asRead) message (asReadAll fields) failure := by
  have hobject : (Value.object fields).asRead = .object (asReadAll fields) := Value.asRead_object hfields
  cases fields with
  | nil => cases id <;> cases failure <;> rfl
  | cons f fields =>
    have hmap : asReadAll (f :: fields) = (f.1, f.2.asRead) :: asReadAll fields := rfl
    have htext : ∀ s, (Value.text s).asRead = .text s := fun _ => rfl
    rw [hmap] at hobject ⊢
    show (membersOf t level logger id message (f :: fields) failure).map _ = _
    cases id <;> cases failure <;>
      simp only [membersOf, List.isEmpty_cons, Bool.false_eq_true, if_false, List.map_append, List.map_cons,
        List.map_nil, Option.map_none, Option.map_some, htext, hobject]

/-- There is room for the values that are written of those set on a record: the workflow's id within the
brackets of the line, the others within those of `fields` too. -/
structure Roomy (limits : Limits) (values : List (String × Value)) : Prop where
  id : ∀ v, Entries.last? workflowIdName values = some v → v.Fits limits 1
  fields : ∀ p ∈ fieldsOf values, p.2.Fits limits 2

theorem fits_membersOf_iff {t : Instant} {level logger message : String} {failure : Option String}
    (hdepth : 2 ≤ limits.depth) :
    (Value.object (membersOf t (.text level) (.text logger) (Entries.last? workflowIdName values) message
      (fieldsOf values) failure)).Fits limits 0 ↔ Roomy limits values := by
  have htext : ∀ s, (Value.text s).Fits limits 1 := Value.fits_text limits 1
  have hfields : (Value.object (fieldsOf values)).Fits limits 1 ↔ ∀ p ∈ fieldsOf values, p.2.Fits limits 2 :=
    Value.fits_object_iff.trans (and_iff_right hdepth)
  have hid : (∀ p ∈ (match Entries.last? workflowIdName values with
      | some v => [(workflowIdName, v)]
      | none => []), p.2.Fits limits 1) ↔
        ∀ v, Entries.last? workflowIdName values = some v → v.Fits limits 1 := by
    cases Entries.last? workflowIdName values <;> simp
  have hrest : (∀ p ∈ if (fieldsOf values).isEmpty then [] else [("fields", Value.object (fieldsOf values))],
      p.2.Fits limits 1) ↔ ∀ p ∈ fieldsOf values, p.2.Fits limits 2 := by
    rw [← hfields]
    split
    · rename_i hempty
      rw [List.isEmpty_iff.mp hempty] at hfields ⊢
      exact iff_of_true (fun _ h => absurd h List.not_mem_nil) (hfields.mpr fun _ h => absurd h List.not_mem_nil)
    · simp only [List.forall_mem_singleton]
  rw [Value.fits_object_iff, and_iff_right (by omega : 0 < limits.depth)]
  simp only [membersOf, List.forall_mem_append, hid, hrest]
  constructor
  · intro h
    exact ⟨h.1.1.1.2, h.1.2⟩
  · intro h
    refine ⟨⟨⟨⟨?_, h.id⟩, ?_⟩, h.fields⟩, ?_⟩
    · simp only [List.forall_mem_cons, htext, true_and, List.not_mem_nil, false_implies, implies_true]
    · simp only [List.forall_mem_singleton, htext]
    · cases failure <;> simp [htext]

/-- The message of a record that can be written does not depend on the other values. -/
theorem message_of_extras {extras : Entries String Value} {text : String}
    (h : (r.withExtras extras).message limits = .ok text) (hextras : r.extras = []) :
    r.message limits = .ok text := by
  unfold message at h ⊢
  cases hget : Entries.get? messageName extras with
  | some v =>
    rw [withExtras, hget] at h
    cases h
  | none =>
    rw [withExtras, hget] at h
    rw [hextras]
    exact h

/-- A record that lacks nothing has members just when it has a time, a message and a text for its failure. -/
theorem members_eq_ok_iff (hlacks : r.lacks = []) {ms : List (String × Value)} :
    r.members limits = .ok ms ↔ ∃ t text failure, r.instant = .ok t ∧ r.message limits = .ok text ∧
      r.failureText? = .ok failure ∧
        membersOf t r.level r.logger (Entries.get? workflowIdName r.extras) text r.fields failure = ms := by
  have hrequire : ∀ name, r.require name = .ok () := by
    intro name
    rw [require, hlacks]
    rfl
  unfold members
  simp only [hrequire]
  cases r.instant with
  | error p => simp [bind, Except.bind]
  | ok t =>
    cases r.message limits with
    | error p => simp [bind, Except.bind]
    | ok text =>
      cases r.failureText? with
      | error p => simp [bind, Except.bind]
      | ok failure =>
        constructor
        · intro h
          exact ⟨t, text, failure, rfl, rfl, rfl, Except.ok.inj h⟩
        · rintro ⟨_, _, _, ht, hm, hf, rfl⟩
          cases ht
          cases hm
          cases hf
          rfl

/-- A line is the document of the members, if there are such and there is room for them. -/
theorem line_eq_ok_iff {s : String} :
    r.line limits = .ok s ↔ ∃ members, r.members limits = .ok members ∧
      (Value.object members).Fits limits 0 ∧ Json.write .line (.object members) = s := by
  unfold line
  cases r.members limits with
  | error p => simp [bind, Except.bind]
  | ok members =>
    show (Json.dump limits .line (.object members)).mapError Problem.excess = .ok s ↔ _
    unfold Json.dump Value.within Value.Fits
    cases hx : (Value.object members).excessWithin? limits 0 with
    | none => simp [hx, Except.mapError]
    | some x => simp [hx, Except.mapError]

/-- A record with other values set on it has a line just when it has a time, a message and a text for its
failure, and there is room for the values. -/
theorem line_withExtras_iff {logger : String} {level : String} (hlogger : r.logger = .text logger)
    (hlevel : r.level = .text level) (hlacks : r.lacks = []) (hdepth : 2 ≤ limits.depth) {s : String} :
    (r.withExtras (Entries.ofList values)).line limits = .ok s ↔ ∃ t text failure,
      r.instant = .ok t ∧ (r.withExtras (Entries.ofList values)).message limits = .ok text ∧
        r.failureText? = .ok failure ∧ Roomy limits values ∧
          Json.write .line (.object (membersOf t (.text level) (.text logger)
            (Entries.last? workflowIdName values) text (fieldsOf values) failure)) = s := by
  have hfields : (r.withExtras (Entries.ofList values)).fields = fieldsOf values := by
    rw [fieldsOf, ← Entries.ofList_eq_lastSettings]
    rfl
  have hid : Entries.get? workflowIdName (r.withExtras (Entries.ofList values)).extras =
      Entries.last? workflowIdName values := Entries.get?_ofList _ _
  have hmembers : ∀ {members}, (r.withExtras (Entries.ofList values)).members limits = .ok members ↔ _ :=
    members_eq_ok_iff (r := r.withExtras (Entries.ofList values)) hlacks
  have hparts : (r.withExtras (Entries.ofList values)).level = .text level ∧
      (r.withExtras (Entries.ofList values)).logger = .text logger ∧
        (r.withExtras (Entries.ofList values)).failureText? = r.failureText? := ⟨hlevel, hlogger, rfl⟩
  rw [hfields, hid, hparts.1, hparts.2.1, hparts.2.2, instant_withExtras] at hmembers
  rw [line_eq_ok_iff]
  constructor
  · rintro ⟨members, hms, hfits, hs⟩
    obtain ⟨t, text, failure, ht, hm, hf, rfl⟩ := hmembers.mp hms
    exact ⟨t, text, failure, ht, hm, hf, (fits_membersOf_iff hdepth).mp hfits, hs⟩
  · rintro ⟨t, text, failure, ht, hm, hf, hroomy, hs⟩
    exact ⟨_, hmembers.mpr ⟨t, text, failure, ht, hm, hf, rfl⟩, (fits_membersOf_iff hdepth).mpr hroomy, hs⟩

/-- What a line says. The values set on a record, whatever their names and contents, are found again under
`fields`, and the workflow's id beside it; the other members are those of the record without them. There is a
line just when a calendar has the time, and there is room for the values. -/
theorem line_reads_back {logger : String} {level : Level} {text : Value} {arguments : List Value}
    {created : Instant} {failure : Option String} {message : String} (hdepth : 2 ≤ limits.depth)
    (hnames : ∀ p ∈ values, p.1 ∉ reservedNames)
    (hr : (make logger level text arguments created failure).Given values r)
    (hm : r.message limits = .ok message) :
    (make logger level text arguments created failure).message limits = .ok message ∧
      ((∃ s, r.line limits = .ok s) ↔ Datable created ∧ Roomy limits values) ∧
      (∀ t s, (make logger level text arguments created failure).instant = .ok t → r.line limits = .ok s →
        Printed s.toList ∧
          Json.read (.beyond s) s = .ok (.object (membersOf t (.text level.name) (.text logger)
            ((Entries.last? workflowIdName values).map Value.asRead) message (asReadAll (fieldsOf values))
            failure))) ∧
      (fieldsOf values ≠ [] ↔ ∃ p ∈ values, isField p.1 = true) := by
  obtain rfl : r = (make logger level text arguments created failure).withExtras (Entries.ofList values) :=
    hr.eq_setAll.trans (setAll_of_not_reserved hnames rfl rfl)
  have hnodup : ((fieldsOf values).map (·.1)).Nodup := by
    rw [fieldsOf, ← Entries.ofList_eq_lastSettings]
    exact (Entries.nodup_keys_ofList values).sublist (List.filter_sublist.map _)
  have hinstant : (make logger level text arguments created failure).instant =
      (make "" Level.unset .null [] created none).instant := instant_congr rfl
  have hfailure : (make logger level text arguments created failure).failureText? = .ok failure := by
    cases failure <;> rfl
  have hline : ∀ s, ((make logger level text arguments created failure).withExtras
      (Entries.ofList values)).line limits = .ok s ↔ _ := fun _ => line_withExtras_iff rfl rfl rfl hdepth
  refine ⟨message_of_extras hm rfl, ?_, fun t s ht hs => ?_, fieldsOf_ne_nil_iff⟩
  · constructor
    · rintro ⟨s, hs⟩
      obtain ⟨t, -, -, ht, -, -, hroomy, -⟩ := (hline s).mp hs
      exact ⟨⟨t, hinstant.symm.trans ht⟩, hroomy⟩
    · rintro ⟨⟨t, ht⟩, hroomy⟩
      exact ⟨_, (hline _).mpr ⟨t, message, failure, hinstant.trans ht, hm, hfailure, hroomy, rfl⟩⟩
  · obtain ⟨t', message', failure', ht', hm', hf', -, rfl⟩ := (hline s).mp hs
    obtain rfl := Except.ok.inj (ht.symm.trans ht')
    obtain rfl := Except.ok.inj (hm.symm.trans hm')
    obtain rfl := Except.ok.inj (hfailure.symm.trans hf')
    refine ⟨Json.printed_write _, ?_⟩
    rw [Json.read_write, Value.asRead_object (nodup_membersOf ..)]
    show Except.ok (Value.object (asReadAll _)) = _
    rw [asReadAll_membersOf hnodup]
    rfl

/-- Values of which two share a name, one names the workflow, one is hidden and one is named like a member. -/
def signing : List (String × Value) :=
  [("state", .state .waiting), ("workflow_id", .int 3), ("_trace", .thing), ("logger", .tuple [.null, .int (-7)]),
    ("timestamp", .text "a\"b\\\n"), ("state", .float (.finite true 15 (-1) (.inl (by decide))))]

theorem signing_reads_back :
    ∃ s, ((make "audit" Level.info (.text "signed") [] 0 none).setAll signing).line = .ok s ∧
      Printed s.toList ∧
      Json.read (.beyond s) s = .ok (.object
        [("timestamp", .text "1970-01-01T00:00:00+00:00"), ("level", .text "INFO"), ("logger", .text "audit"),
          ("workflow_id", .int 3), ("message", .text "signed"),
          ("fields", .object
            [("state", .float (.finite true 15 (-1) (.inl (by decide)))), ("logger", .list [.null, .int (-7)]),
              ("timestamp", .text "a\"b\\\n")])]) := by
  have hinstant : (make "audit" Level.info (.text "signed") [] 0 none).instant = .ok 0 := by
    decide +kernel
  have hnames : ∀ p ∈ signing, p.1 ∉ reservedNames := by decide
  have hdepth : 2 ≤ Limits.usual.depth := by decide
  have hmessage : ((make "audit" Level.info (.text "signed") [] 0 none).setAll signing).message .usual =
      .ok "signed" := rfl
  obtain ⟨-, hline, hread, -⟩ := line_reads_back hdepth hnames (.inl rfl) hmessage
  have hlast : Entries.lastSettings signing =
      [("state", .float (.finite true 15 (-1) (.inl (by decide)))), ("workflow_id", .int 3), ("_trace", .thing),
        ("logger", .tuple [.null, .int (-7)]), ("timestamp", .text "a\"b\\\n")] := rfl
  have hnamed : isField "state" = true ∧ isField "workflow_id" = false ∧ isField "_trace" = false ∧
      isField "logger" = true ∧ isField "timestamp" = true := by decide +kernel
  have hfields : fieldsOf signing =
      [("state", .float (.finite true 15 (-1) (.inl (by decide)))), ("logger", .tuple [.null, .int (-7)]),
        ("timestamp", .text "a\"b\\\n")] := by
    rw [fieldsOf, hlast]
    simp only [List.filter_cons, List.filter_nil, hnamed, if_true, Bool.false_eq_true, if_false]
  have hroomy : Roomy .usual signing := by
    refine ⟨fun v hv => ?_, ?_⟩
    · obtain rfl : Value.int 3 = v := Option.some.inj hv
      decide
    · rw [hfields]
      decide
  obtain ⟨s, hs⟩ := hline.mpr ⟨⟨0, by decide +kernel⟩, hroomy⟩
  have hs' := hread 0 s hinstant hs
  rw [hfields] at hs'
  exact ⟨s, hs, hs'⟩

/-- The least whole number with too many digits. -/
theorem not_fits_power {opened : Nat} (h : 0 < limits.digits) :
    ¬(Value.int (10 ^ limits.digits)).Fits limits opened := by
  rw [Value.fits_int_iff h, Int.natAbs_pow]
  exact Nat.lt_irrefl _

def nested : Nat → Value
  | 0 => .list []
  | n + 1 => .list [nested n]

theorem not_fits_nested {n opened : Nat} (h : limits.depth ≤ opened + n) : ¬(nested n).Fits limits opened := by
  induction n generalizing opened with
  | zero =>
    rw [nested, Value.fits_list_iff]
    omega
  | succ n ih =>
    rw [nested, Value.fits_list_iff]
    exact fun hfits => ih (by omega) (hfits.2 _ List.mem_cons_self)

/-- A record has a message and no line if it is of the year 10000, if a number set on it has too many digits,
or if a value set on it is nested too deeply. -/
theorem line_needs_calendar_and_room :
    let lineless (created : Instant) (values : List (String × Value)) : Prop :=
      ((make "audit" Level.info (.text "signed") [] created none).setAll values).message .usual = .ok "signed" ∧
        ∀ s, ((make "audit" Level.info (.text "signed") [] created none).setAll values).line ≠ .ok s
    lineless 253402300800000000 [] ∧ lineless 0 [("count", .int (10 ^ Limits.usual.digits))] ∧
      lineless 0 [("path", nested Limits.usual.depth)] := by
  have hdepth : 2 ≤ Limits.usual.depth := by decide
  have hdigits : ¬(Value.int (10 ^ Limits.usual.digits)).Fits .usual 2 := not_fits_power (by decide)
  have hnested : ¬(nested Limits.usual.depth).Fits .usual 2 := not_fits_nested (by decide)
  have hfields : ∀ name v, isField name = true → fieldsOf [(name, v)] = [(name, v)] := fun name v h => by
    rw [fieldsOf, ← Entries.ofList_eq_lastSettings]
    show [(name, v)].filter (fun p => isField p.1) = _
    rw [List.filter_cons, if_pos h, List.filter_nil]
  refine ⟨⟨rfl, fun s hs => ?_⟩, ⟨rfl, fun s hs => ?_⟩, ⟨rfl, fun s hs => ?_⟩⟩
  · have hnames : ∀ p ∈ ([] : List (String × Value)), p.1 ∉ reservedNames := fun _ h => absurd h List.not_mem_nil
    obtain ⟨t, ht⟩ := ((line_reads_back hdepth hnames (.inl rfl) rfl).2.1.mp ⟨s, hs⟩).1
    have hyear : (make "" Level.unset .null [] 253402300800000000 none).instant =
        .error (.yearOutOfRange 10000) := by decide +kernel
    rw [hyear] at ht
    cases ht
  · have hroomy := ((line_reads_back hdepth (by decide) (.inl rfl) rfl).2.1.mp ⟨s, hs⟩).2
    exact hdigits (hroomy.fields ("count", _) (by rw [hfields _ _ (by decide +kernel)]; exact List.mem_cons_self))
  · have hroomy := ((line_reads_back hdepth (by decide) (.inl rfl) rfl).2.1.mp ⟨s, hs⟩).2
    exact hnested (hroomy.fields ("path", _) (by rw [hfields _ _ (by decide +kernel)]; exact List.mem_cons_self))

end Record

end Logging

end ApprovalFlow
