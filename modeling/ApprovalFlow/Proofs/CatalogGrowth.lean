import ApprovalFlow.Proofs.Action
import Mathlib.Data.List.Nodup
import Mathlib.Order.Basic

/-!
# The catalog over calls

Outcomes are defined, looked up, listed and made in any order, and some of these calls fail. The catalog only
ever grows at its end, and what it once gives for a key it gives from then on.

That a key leads to the same outcome every time, and not only to an equal one, is said of outcomes as objects:
each successful construction makes one of its own, told apart by a serial number. With the numbers forgotten the
calls do what they do in the engine (`run_perform`).
-/

namespace ApprovalFlow

structure Outcome.Valid (o : Outcome) : Prop where
  key : o.key ≠ ""
  messageKey : o.messageKey ≠ ""
  completion : o.ok = true → o.completion = true

inductive OutcomeCall where
  | define (key : String) (completion : Bool) (ok : Option Bool) (messageKey : Option String)
  | lookUp (key : String)
  | list
  | make (key messageKey : String) (completion ok : Bool)
  deriving Repr, DecidableEq

/-- An outcome as an object: which construction made it, and what it says. -/
structure Minted where
  serial : Nat
  outcome : Outcome
  deriving Repr, DecidableEq

/-- The catalog with its outcomes as objects. `made` counts the objects made so far, those that did not get into
the catalog included. -/
structure Mint where
  made : Nat
  entries : List Minted
  deriving Repr, DecidableEq

/-! ## Making and describing outcomes -/

namespace Outcome

/-- The outcome that a definition describes, its defaults filled in. -/
def described (key : String) (completion : Bool) (ok : Option Bool) (messageKey : Option String) : Outcome :=
  ⟨key, if messageKey.getD "" = "" then key else messageKey.getD "", completion, ok.getD completion⟩

theorem make_eq_ok {key messageKey : String} {completion ok : Bool} {o : Outcome} :
    make key messageKey completion ok = .ok o ↔
      o = ⟨key, if messageKey = "" then key else messageKey, completion, ok⟩ ∧ o.Valid := by
  unfold make
  by_cases hkey : key = ""
  · rw [if_pos hkey]
    constructor
    · rintro ⟨⟩
    · rintro ⟨rfl, hv⟩
      exact absurd hkey hv.key
  by_cases hok : (ok && !completion) = true
  · rw [if_neg hkey, if_pos hok]
    constructor
    · rintro ⟨⟩
    · rintro ⟨rfl, hv⟩
      rw [Bool.and_eq_true, Bool.not_eq_true'] at hok
      exact absurd (hv.completion hok.1) (Bool.eq_false_iff.mp hok.2)
  · rw [if_neg hkey, if_neg hok, Except.ok.injEq, eq_comm, iff_self_and]
    rintro rfl
    refine ⟨hkey, ?_, fun h => ?_⟩
    · dsimp only
      split <;> assumption
    · by_contra hc
      exact hok (Bool.and_eq_true _ _ ▸ ⟨h, Bool.not_eq_true' _ ▸ Bool.eq_false_iff.mpr hc⟩)

/-- What a definition makes is what it describes. -/
theorem make_described {key : String} {completion : Bool} {ok : Option Bool} {messageKey : Option String}
    {o : Outcome} :
    make key (messageKey.getD "") completion (ok.getD completion) = .ok o ↔
      o = described key completion ok messageKey ∧ o.Valid :=
  make_eq_ok

end Outcome

/-- A catalog admits an outcome if its key is unknown or known with the same attributes. -/
def Catalog.Admits (c : Catalog) (o : Outcome) : Prop :=
  ∀ known ∈ c.outcomes, known.key = o.key →
    known.messageKey = o.messageKey ∧ known.completion = o.completion ∧ known.ok = o.ok

/-! ## The calls in the engine -/

namespace OutcomeCall

variable {σ : Type}

def perform : OutcomeCall → Act σ (List Outcome)
  | define key completion ok messageKey => do
    return [← Engine.defineOutcome key completion ok messageKey]
  | lookUp key => do return [← Engine.resolveOutcome (.known key)]
  | list => do return (← get).catalog.outcomes
  | make key messageKey completion ok => do
    return [← Engine.resolveOutcome (.fresh key messageKey completion ok)]

def through (calls : List OutcomeCall) (e : Engine σ) : Engine σ :=
  calls.foldl (fun e c => (c.perform.run e).2) e

def isMaking : OutcomeCall → Bool
  | make .. => true
  | _ => false

end OutcomeCall

/-! ## The calls on objects -/

namespace Mint

def builtIn : Mint :=
  ⟨Catalog.builtIn.outcomes.length, Catalog.builtIn.outcomes.mapIdx Minted.mk⟩

/-- What the catalog says, the identities of its outcomes forgotten. -/
def catalog (m : Mint) : Catalog := ⟨m.entries.map (·.outcome)⟩

def find? (m : Mint) (key : String) : Option Minted := m.entries.find? (·.outcome.key == key)

def lookup (m : Mint) (key : String) : Except Failure Minted :=
  match m.find? key with
  | some i => .ok i
  | none => .error (.unknownOutcome key)

def make (m : Mint) (key messageKey : String) (completion ok : Bool) : Except Failure Minted × Mint :=
  match Outcome.make key messageKey completion ok with
  | .ok o => (.ok ⟨m.made, o⟩, { m with made := m.made + 1 })
  | .error x => (.error x, m)

/-- Makes an object and enters it in the catalog, unless the key is known: then it is the catalog's own object
that is given, if it says the same. -/
def define (m : Mint) (key : String) (completion : Bool) (ok : Option Bool) (messageKey : Option String) :
    Except Failure Minted × Mint :=
  match m.make key (messageKey.getD "") completion (ok.getD completion) with
  | (.error x, m) => (.error x, m)
  | (.ok i, m) =>
    match m.find? key with
    | none => (.ok i, { m with entries := m.entries ++ [i] })
    | some known =>
      if known.outcome = i.outcome then (.ok known, m) else (.error (.outcomeRedefined key), m)

def answer (m : Mint) : OutcomeCall → Except Failure (List Minted) × Mint
  | .define key completion ok messageKey =>
    ((m.define key completion ok messageKey).1.map ([·]), (m.define key completion ok messageKey).2)
  | .lookUp key => ((m.lookup key).map ([·]), m)
  | .list => (.ok m.entries, m)
  | .make key messageKey completion ok =>
    ((m.make key messageKey completion ok).1.map ([·]), (m.make key messageKey completion ok).2)

def through (m : Mint) (calls : List OutcomeCall) : Mint :=
  calls.foldl (fun m c => (m.answer c).2) m

variable {m : Mint}

theorem through_append (calls more : List OutcomeCall) :
    m.through (calls ++ more) = (m.through calls).through more := List.foldl_append

theorem through_concat (calls : List OutcomeCall) (c : OutcomeCall) :
    m.through (calls ++ [c]) = ((m.through calls).answer c).2 := through_append calls [c]

theorem find?_catalog (key : String) : m.catalog.find? key = (m.find? key).map (·.outcome) := by
  unfold catalog Catalog.find? find?
  rw [List.find?_map]
  rfl

theorem catalog_builtIn : builtIn.catalog = .builtIn := by decide

/-! ### Objects forgotten -/

variable {σ : Type} {e : Engine σ}

theorem map_lookup (key : String) : (m.lookup key).map (·.outcome) = m.catalog.lookup key := by
  unfold lookup Catalog.lookup
  rw [find?_catalog]
  cases m.find? key <;> rfl

theorem map_make (key messageKey : String) (completion ok : Bool) :
    (m.make key messageKey completion ok).1.map (·.outcome) = Outcome.make key messageKey completion ok := by
  unfold make
  cases Outcome.make key messageKey completion ok <;> rfl

theorem entries_make (key messageKey : String) (completion ok : Bool) :
    (m.make key messageKey completion ok).2.entries = m.entries := by
  unfold make
  split <;> rfl

/-- A definition of an object is, with identities forgotten, a definition in the catalog. -/
theorem catalog_define (key : String) (completion : Bool) (ok : Option Bool) (messageKey : Option String) :
    m.catalog.define key completion ok messageKey =
      (m.define key completion ok messageKey).1.map fun i =>
        ((m.define key completion ok messageKey).2.catalog, i.outcome) := by
  unfold Catalog.define define make
  cases Outcome.make key (messageKey.getD "") completion (ok.getD completion) with
  | error x => rfl
  | ok o =>
    dsimp only [bind, Except.bind]
    have hfind : find? { m with made := m.made + 1 } key = m.find? key := rfl
    simp only [find?_catalog, hfind]
    cases m.find? key with
    | none => simp only [Option.map_none, Except.map, catalog, List.map_append, List.map_cons, List.map_nil]
    | some known =>
      simp only [Option.map_some]
      split <;> rfl

/-- What a definition can do: fail and enter nothing, give the object that is known, or enter a new one. -/
theorem define_cases (m : Mint) (key : String) (completion : Bool) (ok : Option Bool)
    (messageKey : Option String) :
    let o := Outcome.described key completion ok messageKey
    (∃ x n, m.define key completion ok messageKey = (.error x, { m with made := m.made + n }) ∧
      ¬(o.Valid ∧ ∀ known, m.find? key = some known → known.outcome = o)) ∨
    (∃ known, m.find? key = some known ∧ known.outcome = o ∧ o.Valid ∧
      m.define key completion ok messageKey = (.ok known, { m with made := m.made + 1 })) ∨
    (m.find? key = none ∧ o.Valid ∧
      m.define key completion ok messageKey = (.ok ⟨m.made, o⟩, ⟨m.made + 1, m.entries ++ [⟨m.made, o⟩]⟩)) := by
  intro o
  unfold define make
  cases hmake : Outcome.make key (messageKey.getD "") completion (ok.getD completion) with
  | error x =>
    refine .inl ⟨x, 0, rfl, fun h => ?_⟩
    rw [Outcome.make_described.mpr ⟨rfl, h.1⟩] at hmake
    cases hmake
  | ok o' =>
    obtain ⟨rfl, hv⟩ := Outcome.make_described.mp hmake
    have hfind : find? { m with made := m.made + 1 } key = m.find? key := rfl
    simp only [hfind]
    cases hknown : m.find? key with
    | none => exact .inr (.inr ⟨rfl, hv, rfl⟩)
    | some known =>
      by_cases hsame : known.outcome = o
      · exact .inr (.inl ⟨known, rfl, hsame, hv, if_pos hsame⟩)
      · exact .inl ⟨_, 1, if_neg hsame, fun h => hsame (h.2 known rfl)⟩

/-- A definition that fails enters nothing. -/
theorem entries_define_of_error {key : String} {completion : Bool} {ok : Option Bool} {messageKey : Option String}
    {x : Failure} (h : (m.define key completion ok messageKey).1 = .error x) :
    (m.define key completion ok messageKey).2.entries = m.entries := by
  obtain ⟨y, n, hd, -⟩ | ⟨known, -, -, -, hd⟩ | ⟨-, -, hd⟩ := m.define_cases key completion ok messageKey
  · rw [hd]
  · rw [hd] at h
    cases h
  · rw [hd] at h
    cases h

end Mint

/-- A call in the engine answers what the objects say that it returns, and leaves an engine whose catalog lists
what the objects say; all else in the engine stays. -/
theorem OutcomeCall.run_perform {σ : Type} {e : Engine σ} {m : Mint} (h : e.catalog = m.catalog)
    (c : OutcomeCall) :
    c.perform.run e =
      ((m.answer c).1.map (List.map (·.outcome)), { e with catalog := (m.answer c).2.catalog }) := by
  have hsame : ∀ {m' : Mint}, m'.entries = m.entries → { e with catalog := m'.catalog } = e := by
    intro m' hm'
    have : m'.catalog = e.catalog := by rw [h, Mint.catalog, hm', Mint.catalog]
    rw [this]
  cases c with
  | define key completion ok messageKey =>
    have hdefine := Mint.catalog_define (m := m) key completion ok messageKey
    unfold perform Engine.defineOutcome
    simp only [Act.run_bind, Act.run_get, h, hdefine, Mint.answer]
    cases hd : (m.define key completion ok messageKey).1 with
    | error x =>
      rw [hsame (Mint.entries_define_of_error hd)]
      rfl
    | ok i => rfl
  | lookUp key =>
    unfold perform Engine.resolveOutcome
    simp only [Act.run_bind, Act.run_get, OutcomeRef.resolve, h, ← Mint.map_lookup, Mint.answer, hsame rfl]
    cases m.lookup key <;> rfl
  | list =>
    unfold perform
    simp only [Act.run_bind, Act.run_get, Act.run_pure, h, Mint.answer, hsame rfl]
    rfl
  | make key messageKey completion ok =>
    unfold perform Engine.resolveOutcome
    simp only [Act.run_bind, Act.run_get, OutcomeRef.resolve, Mint.answer,
      hsame (Mint.entries_make key messageKey completion ok)]
    rw [← Mint.map_make (m := m)]
    cases (m.make key messageKey completion ok).1 <;> rfl

/-- After some calls, too, the engine's catalog lists what the objects say. -/
theorem OutcomeCall.catalog_through {σ : Type} {e : Engine σ} {m : Mint} (h : e.catalog = m.catalog)
    (calls : List OutcomeCall) : (through calls e).catalog = (m.through calls).catalog := by
  induction calls generalizing e m with
  | nil => exact h
  | cons c calls ih =>
    have hc : (c.perform.run e).2.catalog = (m.answer c).2.catalog := by rw [run_perform h]
    exact ih hc

/-! ## What every call preserves -/

namespace Mint

/-- The keys tell the entries apart and so do the serial numbers, each of which was given out; and every entry is
valid. -/
structure Sound (m : Mint) : Prop where
  keys : (m.entries.map (·.outcome.key)).Nodup
  serials : (m.entries.map (·.serial)).Nodup
  made : ∀ i ∈ m.entries, i.serial < m.made
  valid : ∀ i ∈ m.entries, i.outcome.Valid

variable {m : Mint}

theorem sound_builtIn : builtIn.Sound where
  keys := by decide
  serials := by decide
  made := by decide
  valid := by
    have hall : ∀ i ∈ builtIn.entries, i.outcome.key ≠ "" ∧ i.outcome.messageKey ≠ "" ∧
        (i.outcome.ok = true → i.outcome.completion = true) := by decide
    exact fun i hi => ⟨(hall i hi).1, (hall i hi).2.1, (hall i hi).2.2⟩

/-- More objects may have been made. -/
theorem Sound.of_entries {m' : Mint} (hm : m.Sound) (he : m'.entries = m.entries) (hmade : m.made ≤ m'.made) :
    m'.Sound := by
  refine ⟨he ▸ hm.keys, he ▸ hm.serials, fun i hi => ?_, he ▸ hm.valid⟩
  rw [he] at hi
  exact Nat.lt_of_lt_of_le (hm.made i hi) hmade

/-- An object newly made may be entered under a key that is unknown. -/
theorem Sound.entered (hm : m.Sound) {o : Outcome} (ho : o.Valid) (hnew : m.find? o.key = none) :
    Sound ⟨m.made + 1, m.entries ++ [⟨m.made, o⟩]⟩ := by
  have hkey : ∀ i ∈ m.entries, i.outcome.key ≠ o.key := fun i hi hk =>
    List.find?_eq_none.mp hnew i hi (beq_iff_eq.mpr hk)
  refine ⟨?_, ?_, fun i hi => ?_, fun i hi => ?_⟩
  · rw [List.map_append, List.nodup_append]
    refine ⟨hm.keys, List.nodup_singleton _, fun k hk k' hk' hkk => ?_⟩
    obtain ⟨i, hi, rfl⟩ := List.mem_map.mp hk
    exact hkey i hi (hkk.trans (List.mem_singleton.mp hk'))
  · rw [List.map_append, List.nodup_append]
    refine ⟨hm.serials, List.nodup_singleton _, fun n hn n' hn' hnn => ?_⟩
    obtain ⟨i, hi, rfl⟩ := List.mem_map.mp hn
    exact absurd (hnn.trans (List.mem_singleton.mp hn')) (Nat.ne_of_lt (hm.made i hi))
  · rcases List.mem_append.mp hi with hi | hi
    · exact Nat.lt_succ_of_lt (hm.made i hi)
    · rw [List.mem_singleton.mp hi]
      exact Nat.lt_succ_self _
  · rcases List.mem_append.mp hi with hi | hi
    · exact hm.valid i hi
    · rwa [List.mem_singleton.mp hi]

theorem make_made (key messageKey : String) (completion ok : Bool) :
    m.made ≤ (m.make key messageKey completion ok).2.made := by
  unfold make
  split
  · exact Nat.le_succ _
  · exact Nat.le_refl _

/-- A call leaves the entries and may add one. -/
theorem Sound.answer (hm : m.Sound) (c : OutcomeCall) :
    (m.answer c).2.Sound ∧ m.entries <+: (m.answer c).2.entries := by
  cases c with
  | define key completion ok messageKey =>
    show (m.define key completion ok messageKey).2.Sound ∧ m.entries <+: (m.define ..).2.entries
    obtain ⟨x, n, h, -⟩ | ⟨known, -, -, -, h⟩ | ⟨hnew, hv, h⟩ := m.define_cases key completion ok messageKey <;>
      rw [h]
    · exact ⟨hm.of_entries rfl (Nat.le_add_right _ _), List.prefix_rfl⟩
    · exact ⟨hm.of_entries rfl (Nat.le_succ _), List.prefix_rfl⟩
    · exact ⟨hm.entered hv hnew, List.prefix_append _ _⟩
  | lookUp key => exact ⟨hm, List.prefix_rfl⟩
  | list => exact ⟨hm, List.prefix_rfl⟩
  | make key messageKey completion ok =>
    have he : (m.answer (.make key messageKey completion ok)).2.entries = m.entries := entries_make ..
    exact ⟨hm.of_entries he (make_made ..), he ▸ List.prefix_rfl⟩

theorem Sound.through (hm : m.Sound) (calls : List OutcomeCall) :
    (m.through calls).Sound ∧ m.entries <+: (m.through calls).entries := by
  induction calls generalizing m with
  | nil => exact ⟨hm, List.prefix_rfl⟩
  | cons c calls ih =>
    obtain ⟨hc, hgrown⟩ := hm.answer c
    exact ⟨(ih hc).1, hgrown.trans (ih hc).2⟩

/-- A key leads to the one entry that has it. -/
theorem Sound.find?_eq_some (hm : m.Sound) {key : String} {i : Minted} :
    m.find? key = some i ↔ i ∈ m.entries ∧ i.outcome.key = key := by
  have hentered : ∀ {key : String} {i : Minted}, m.find? key = some i → i ∈ m.entries ∧ i.outcome.key = key := by
    intro key i h
    exact ⟨List.mem_of_find?_eq_some h,
      beq_iff_eq.mp (List.find?_some (p := fun j : Minted => j.outcome.key == key) h)⟩
  refine ⟨hentered, fun ⟨hi, hkey⟩ => ?_⟩
  cases hf : m.find? key with
  | none => exact absurd (beq_iff_eq.mpr hkey) (List.find?_eq_none.mp hf i hi)
  | some j =>
    obtain ⟨hj, hkey'⟩ := hentered hf
    exact congrArg some (List.inj_on_of_nodup_map hm.keys hj hi (hkey'.trans hkey.symm))

theorem Sound.lookup_of_mem (hm : m.Sound) {i : Minted} (hi : i ∈ m.entries) :
    m.lookup i.outcome.key = .ok i := by
  rw [lookup, hm.find?_eq_some.mpr ⟨hi, rfl⟩]

/-- The catalog admits an outcome if whatever its key leads to says the same. -/
theorem Sound.admits_iff (hm : m.Sound) {o : Outcome} :
    m.catalog.Admits o ↔ ∀ known, m.find? o.key = some known → known.outcome = o := by
  constructor
  · intro h known hknown
    obtain ⟨hmem, hkey⟩ := hm.find?_eq_some.mp hknown
    obtain ⟨hmessage, hcompletion, hok⟩ := h _ (List.mem_map_of_mem hmem) hkey
    cases known with
    | mk n known =>
      cases known
      cases o
      simp only [Outcome.mk.injEq]
      exact ⟨hkey, hmessage, hcompletion, hok⟩
  · intro h known hknown hkey
    obtain ⟨i, hi, rfl⟩ := List.mem_map.mp hknown
    rw [h i (hm.find?_eq_some.mpr ⟨hi, hkey⟩)]
    exact ⟨rfl, rfl, rfl⟩

/-- A definition succeeds just when what it describes is valid and the catalog admits it. -/
theorem Sound.define_iff (hm : m.Sound) (key : String) (completion : Bool) (ok : Option Bool)
    (messageKey : Option String) :
    (∃ i, (m.define key completion ok messageKey).1 = .ok i) ↔
      (Outcome.described key completion ok messageKey).Valid ∧
        m.catalog.Admits (Outcome.described key completion ok messageKey) := by
  rw [hm.admits_iff]
  obtain ⟨x, n, h, hnot⟩ | ⟨known, hf, hsame, hv, h⟩ | ⟨hnew, hv, h⟩ :=
    m.define_cases key completion ok messageKey <;> rw [h]
  · refine ⟨fun hi => ?_, fun hboth => absurd hboth hnot⟩
    obtain ⟨i, hi⟩ := hi
    cases hi
  · refine ⟨fun _ => ⟨hv, fun j hj => ?_⟩, fun _ => ⟨known, rfl⟩⟩
    exact Option.some.inj (hf.symm.trans hj) ▸ hsame
  · refine ⟨fun _ => ⟨hv, fun j hj => ?_⟩, fun _ => ⟨_, rfl⟩⟩
    cases hnew.symm.trans hj

/-- What a definition gives is an entry of the catalog from then on. -/
theorem define_mem {key : String} {completion : Bool} {ok : Option Bool}
    {messageKey : Option String} {i : Minted} (hi : (m.define key completion ok messageKey).1 = .ok i) :
    i ∈ (m.define key completion ok messageKey).2.entries ∧
      i.outcome = Outcome.described key completion ok messageKey := by
  obtain ⟨x, n, h, -⟩ | ⟨known, hf, hsame, -, h⟩ | ⟨-, -, h⟩ := m.define_cases key completion ok messageKey <;>
    rw [h] at hi ⊢ <;> cases hi
  · exact ⟨List.mem_of_find?_eq_some hf, hsame⟩
  · exact ⟨List.mem_append_right _ (List.mem_singleton_self _), rfl⟩

/-- A call that fails enters nothing. -/
theorem entries_answer_of_error {c : OutcomeCall} {x : Failure} (h : (m.answer c).1 = .error x) :
    (m.answer c).2.entries = m.entries := by
  cases c with
  | define key completion ok messageKey =>
    refine entries_define_of_error (x := x) ?_
    cases hd : (m.define key completion ok messageKey).1 with
    | error y =>
      rw [Mint.answer, hd] at h
      cases h
      rfl
    | ok i =>
      rw [Mint.answer, hd] at h
      cases h
  | lookUp key => rfl
  | list => rfl
  | make key messageKey completion ok => exact entries_make ..

end Mint

/-! ## The catalog is append-only -/

namespace OutcomeCall

variable {σ : Type}

abbrev minted (calls : List OutcomeCall) : Mint := Mint.builtIn.through calls

/-- The catalog of an engine is an append-only function of keys. -/
structure AppendOnly (e : Engine σ) : Prop where
  /-- The engine's catalog says what the objects say. -/
  catalog : ∀ calls, (through calls e).catalog = (minted calls).catalog
  /-- Every call returns what the objects say. -/
  returns : ∀ calls c,
    (c.perform.run (through calls e)).1 = ((minted calls).answer c).1.map (List.map (·.outcome))
  grows : ∀ calls more, (minted calls).entries <+: (minted (calls ++ more)).entries
  keys : ∀ calls, ((minted calls).entries.map (·.outcome.key)).Nodup
  serials : ∀ calls, ((minted calls).entries.map (·.serial)).Nodup
  /-- An entry is what its key leads to from then on. -/
  leads : ∀ calls more, ∀ i ∈ (minted calls).entries,
    (minted (calls ++ more)).lookup i.outcome.key = .ok i
  valid : ∀ calls, ∀ i ∈ (minted calls).entries, i.outcome.Valid
  defines : ∀ calls key completion ok messageKey,
    (∃ i, ((minted calls).define key completion ok messageKey).1 = .ok i) ↔
      (Outcome.described key completion ok messageKey).Valid ∧
        (minted calls).catalog.Admits (Outcome.described key completion ok messageKey)
  /-- What a definition gives is what its key leads to from then on. -/
  defined : ∀ calls more key completion ok messageKey i,
    ((minted calls).define key completion ok messageKey).1 = .ok i →
      i.outcome = Outcome.described key completion ok messageKey ∧
        (minted (calls ++ .define key completion ok messageKey :: more)).lookup key = .ok i
  /-- A call that fails or only makes an outcome leaves the engine as it is, and the objects of its catalog. -/
  unchanged : ∀ calls c, (∃ x, (c.perform.run (through calls e)).1 = .error x) ∨ c.isMaking →
    (c.perform.run (through calls e)).2 = through calls e ∧
      (minted (calls ++ [c])).entries = (minted calls).entries

/-- Whatever sequence of definitions, look-ups, listings and constructions is made, failing ones included, the
catalog only grows, and what it once gives for a key it gives from then on. -/
theorem catalog_append_only {e : Engine σ} (he : e.catalog = .builtIn) : AppendOnly e := by
  have hcatalog : ∀ calls, (through calls e).catalog = (minted calls).catalog :=
    catalog_through (he.trans Mint.catalog_builtIn.symm)
  have hsound : ∀ calls, (minted calls).Sound := fun calls => (Mint.sound_builtIn.through calls).1
  -- Entries are only ever put behind the others, and with sound keys the first match for a key never
  -- changes.
  have hgrows : ∀ calls more, (minted calls).entries <+: (minted (calls ++ more)).entries := by
    intro calls more
    rw [minted, minted, Mint.through_append]
    exact ((hsound calls).through more).2
  have hleads : ∀ calls more, ∀ i ∈ (minted calls).entries,
      (minted (calls ++ more)).lookup i.outcome.key = .ok i := fun calls more i hi =>
    (hsound (calls ++ more)).lookup_of_mem ((hgrows calls more).subset hi)
  refine ⟨hcatalog, fun calls c => ?_, hgrows, fun calls => (hsound calls).keys,
    fun calls => (hsound calls).serials, hleads, fun calls => (hsound calls).valid,
    fun calls => (hsound calls).define_iff, fun calls more key completion ok messageKey i hi => ?_,
    fun calls c hc => ?_⟩
  · rw [run_perform (hcatalog calls)]
  · obtain ⟨hmem, hentered⟩ := Mint.define_mem hi
    refine ⟨hentered, ?_⟩
    have hmem' : i ∈ (minted (calls ++ [.define key completion ok messageKey])).entries := by
      rw [minted, Mint.through_concat]
      exact hmem
    have hlater := hleads _ more i hmem'
    rwa [hentered, List.append_assoc] at hlater
  · have hentries : ((minted calls).answer c).2.entries = (minted calls).entries := by
      rcases hc with ⟨x, hx⟩ | hmaking
      · rw [run_perform (hcatalog calls)] at hx
        cases ha : ((minted calls).answer c).1 with
        | error y => exact Mint.entries_answer_of_error ha
        | ok answers =>
          rw [ha] at hx
          cases hx
      · cases c with
        | make key messageKey completion ok => exact Mint.entries_make ..
        | _ => cases hmaking
    refine ⟨?_, by rw [minted, Mint.through_concat, hentries]⟩
    rw [run_perform (hcatalog calls)]
    have hsame : ((minted calls).answer c).2.catalog = (through calls e).catalog := by
      rw [hcatalog calls, Mint.catalog, hentries, Mint.catalog]
    rw [hsame]

/-- Calls of which the second definition is a repetition, its defaults spelled out, and the third a conflict. -/
def trial : List OutcomeCall :=
  [.define "outcome.escalate" true none none,
    .define "outcome.escalate" true (some true) (some "outcome.escalate"),
    .define "outcome.escalate" false none none,
    .make "outcome.escalate" "" false false]

theorem trial_append_only :
    AppendOnly ({ clock := default, host := () } : Engine Unit) ∧
      (minted trial).entries.length = 9 ∧ (minted trial).made = 12 ∧
      (minted trial).lookup "outcome.escalate" =
        .ok ⟨8, "outcome.escalate", "outcome.escalate", true, true⟩ :=
  ⟨catalog_append_only rfl, by decide, by decide, by decide⟩

end OutcomeCall

end ApprovalFlow
