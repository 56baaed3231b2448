/-!
# Entries

A map kept as the list of its entries, in the order in which their keys were first given. Giving a
value to a key that is present replaces the value and keeps the place (`keys_put`), and reading a key
gives the value last put under it (`get?_put`).
-/

namespace ApprovalFlow

/-- Keys with their values, in the order in which the keys were first given. -/
abbrev Entries (κ ν : Type) := List (κ × ν)

namespace Entries

variable {κ ν : Type} [DecidableEq κ]

def get? (k : κ) : Entries κ ν → Option ν
  | [] => none
  | (k', v) :: rest => if k' = k then some v else get? k rest

def contains (m : Entries κ ν) (k : κ) : Bool :=
  (get? k m).isSome

/-- Puts `v` under `k`: at the place of `k` if it is present, else at the end. -/
def put (k : κ) (v : ν) : Entries κ ν → Entries κ ν
  | [] => [(k, v)]
  | (k', v') :: rest => if k' = k then (k', v) :: rest else (k', v') :: put k v rest

def erase (k : κ) : Entries κ ν → Entries κ ν
  | [] => []
  | (k', v') :: rest => if k' = k then rest else (k', v') :: erase k rest

def keys (m : Entries κ ν) : List κ := m.map (·.1)

def ofList (pairs : List (κ × ν)) : Entries κ ν :=
  pairs.foldl (fun m p => put p.1 p.2 m) []

/-- `base` with every entry of `newer` put on top of it. -/
def update (base newer : Entries κ ν) : Entries κ ν :=
  newer.foldl (fun m p => put p.1 p.2 m) base

theorem get?_put (m : Entries κ ν) (k k' : κ) (v : ν) :
    get? k' (put k v m) = if k = k' then some v else get? k' m := by
  induction m with
  | nil => simp [put, get?]
  | cons p rest ih =>
    obtain ⟨a, b⟩ := p
    by_cases ha : a = k <;> by_cases hk : k = k' <;> simp_all [put, get?]

theorem keys_put (m : Entries κ ν) (k : κ) (v : ν) :
    keys (put k v m) = if k ∈ keys m then keys m else keys m ++ [k] := by
  induction m with
  | nil => simp [put, keys]
  | cons p rest ih =>
    obtain ⟨a, b⟩ := p
    by_cases ha : a = k
    · simp [put, keys, ha]
    · have hk : k ≠ a := fun h => ha h.symm
      simp only [put, ha, if_false, keys, List.map_cons, List.mem_cons, hk, false_or] at ih ⊢
      by_cases hm : k ∈ rest.map (·.1) <;> simp [ih, hm]

theorem nodup_keys_put {m : Entries κ ν} (h : (keys m).Nodup) (k : κ) (v : ν) :
    (keys (put k v m)).Nodup := by
  rw [keys_put]
  split
  · exact h
  · rename_i hk
    rw [List.nodup_append]
    exact ⟨h, by simp, fun a ha b hb hab => hk (by simp at hb; rwa [hab, hb] at ha)⟩

theorem mem_keys_iff {m : Entries κ ν} {k : κ} : k ∈ keys m ↔ (get? k m).isSome := by
  induction m with
  | nil => simp [keys, get?]
  | cons p rest ih =>
    obtain ⟨a, b⟩ := p
    by_cases ha : a = k
    · simp [keys, get?, ha]
    · have hk : k ≠ a := fun h => ha h.symm
      simpa [keys, get?, ha, hk] using ih

theorem get?_erase_of_ne (m : Entries κ ν) {k k' : κ} (h : k' ≠ k) :
    get? k' (erase k m) = get? k' m := by
  induction m with
  | nil => rfl
  | cons p rest ih =>
    obtain ⟨a, b⟩ := p
    by_cases ha : a = k
    · have hk : a ≠ k' := fun hk => h (hk.symm.trans ha)
      simp only [erase, get?, ha, if_true]
      rw [if_neg (ha ▸ hk)]
    · simp only [erase, get?, ha, if_false, ih]

theorem keys_erase_sublist (m : Entries κ ν) (k : κ) : (keys (erase k m)).Sublist (keys m) := by
  induction m with
  | nil => exact .slnil
  | cons p rest ih =>
    obtain ⟨a, b⟩ := p
    by_cases ha : a = k
    · simp only [erase, ha, if_true]
      exact .cons _ (List.Sublist.refl _)
    · simp only [erase, ha, if_false]
      exact .cons_cons _ ih

theorem get?_erase_self {m : Entries κ ν} (h : (keys m).Nodup) (k : κ) :
    get? k (erase k m) = none := by
  induction m with
  | nil => rfl
  | cons p rest ih =>
    obtain ⟨a, b⟩ := p
    have hrest : a ∉ keys rest ∧ (keys rest).Nodup := List.nodup_cons.mp h
    by_cases ha : a = k
    · simp only [erase, ha, if_true]
      -- The key was there only once.
      rw [← Option.not_isSome_iff_eq_none, ← mem_keys_iff]
      exact ha ▸ hrest.1
    · simp only [erase, get?, ha, if_false, ih hrest.2]

end Entries

end ApprovalFlow
