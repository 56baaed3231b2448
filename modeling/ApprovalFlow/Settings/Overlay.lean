import ApprovalFlow.Entries
import ApprovalFlow.Value

/-!
# Values on top of each other

A stronger object is laid on a weaker one key by key, at every depth: the weaker one's keys come first,
and of values that are not both objects the stronger counts. So each key has the stronger object's value,
laid on the weaker one's if there is one, or else the weaker one's value (`get?_overlayFields`).
-/

namespace ApprovalFlow.Settings

mutual

def overlay (weak : Value) : Value → Value
  | .object fields =>
    match weak with
    | .object base => .object (overlayFields base fields)
    | _ => .object fields
  | strong => strong

def overlayFields (base : List (String × Value)) : List (String × Value) → List (String × Value)
  | [] => base
  | (key, v) :: rest =>
    let v := match Entries.get? key base with
      | some weak => overlay weak v
      | none => v
    overlayFields (Entries.put key v base) rest

end

theorem get?_overlayFields (base fields : List (String × Value)) (key : String)
    (h : (Entries.keys fields).Nodup) :
    Entries.get? key (overlayFields base fields) =
      match Entries.get? key fields with
      | some v => some (match Entries.get? key base with
        | some weak => overlay weak v
        | none => v)
      | none => Entries.get? key base := by
  induction fields generalizing base with
  | nil => rfl
  | cons field rest ih =>
    obtain ⟨k, v⟩ := field
    obtain ⟨hk, hrest⟩ := List.nodup_cons.1 h
    simp only [overlayFields, ih _ hrest, Entries.get?_put, Entries.get?]
    by_cases hkey : k = key
    · subst hkey
      have hnone : Entries.get? k rest = none :=
        Option.not_isSome_iff_eq_none.1 (mt Entries.mem_keys_iff.2 hk)
      simp [hnone]
    · simp [hkey]

/-- The values of several sources on top of each other, the strongest first: what the stronger ones come
to is laid on each weaker one in turn. -/
def overlayAll (sources : List (Entries String Value)) : Entries String Value :=
  sources.foldl (fun strong weak => overlayFields weak strong) []

end ApprovalFlow.Settings
