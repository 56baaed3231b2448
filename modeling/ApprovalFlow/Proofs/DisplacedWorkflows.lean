import ApprovalFlow.Proofs.ManagedChanges

/-!
# Displaced workflows

Ids come from two sources: the manager counts, and workflows bring ids of their own. Only the latter are
checked for use. A run displaces nobody exactly if no id that the manager takes from its counter is in use
(`undisplaced_iff_freeId`); a workflow that is started under an id in use displaces the one that has it
(`displaces`).
-/

namespace ApprovalFlow.Engine

open Act

variable {σ γ : Type} {h : Hooks σ γ} {m : ManagerId} {members : WorkflowId → Prop}
  {own : WorkflowId → StepId → Prop} {w v : WorkflowId} {op : Operation σ γ} {e e' : Engine σ}

/-- The operation displaces nobody: what is started is registered under an id that nobody uses, every
workflow that is registered and not over is found by its id, only what is over is filed as finished, and
nothing is taken from workflows that the operation is not about. -/
structure Undisplaced (m : ManagerId) (members : WorkflowId → Prop) (own : WorkflowId → StepId → Prop)
    (op : Operation σ γ) (e e' : Engine σ) : Prop where
  unused : ∀ w context, op = .start m w context → ¬(e.workflow w).Managed m →
    (e'.workflow w).Managed m → running? e m (e'.workflow w).id = none
  found : ∀ w, members w → (e'.workflow w).Managed m → (e'.workflow w).state.isTerminal = false →
    running? e' m (e'.workflow w).id = some w
  terminal : ∀ w ∈ (e'.desk m).finished, (e'.workflow w).state.isTerminal = true
  spared : ∀ v, members v → e.subject? m op ≠ some v → Spares m own v e e'

namespace Orderly

variable (ho : Orderly m members own e) (hq : h.Quiet) (hop : Manages m members e op)
include ho hq hop

/-- An operation that takes no id in use displaces nobody. -/
theorem undisplaced (hfree : FreeId m e op) : Undisplaced m members own op e (next h e op) := by
  have hd := ho.dealing hq hop
  have ho' := hd.orderly ho hfree
  refine ⟨fun w context hstart hn hm => ?_, ho'.live, fun w hw => (ho'.finished w hw).2.2,
    fun v hv hne => hd.spares ho hfree hv hne⟩
  cases hd with
  | reassigns _ hr =>
    rw [hr.steady.workflow] at hm
    contradiction
  | conducts _ _ _ hother => exact absurd hstart (hother w context)
  | answers _ _ _ hother => exact absurd hstart (hother w context)
  | decides _ _ _ _ _ _ hother => exact absurd hstart (hother w context)
  | starts u n c e₁ hu hop₁ hst ha hc =>
    rw [hop₁] at hstart
    injection hstart with _ huw _
    subst huw
    rw [hc.confined.id, ha.self]
    exact ha.free hfree hop₁ hst

end Orderly

/-- A workflow that is started under an id in use displaces the one that has it. -/
theorem Orderly.displaces (ho : Orderly m members own e) (hq : h.Quiet) (hw : members w)
    (hst : (e.workflow w).state = .created) (hid : (e.workflow w).id = 0)
    (hv : running? e m (e.desk m).nextId = some v) (context : γ) :
    running? (next h e (.start m w context)) m (e.desk m).nextId ≠ some v := by
  -- The one is registered and the other not, so they are two.
  have hwv : w ≠ v := by
    rintro rfl
    exact (ho.newcomers w hw hst).1.not_managed (ho.registered _ w hv).2.1
  have hop : Manages m members e (.start m w context : Operation σ γ) := ⟨rfl, hw⟩
  have hd := ho.dealing hq hop
  cases hd with
  | reassigns hrefused _ =>
    rcases hrefused w context rfl with hs | ⟨hne, -⟩
    · exact absurd hst hs
    · exact absurd hid hne
  | conducts _ _ _ hother => exact absurd rfl (hother w context)
  | answers _ _ _ hother => exact absurd rfl (hother w context)
  | decides _ _ _ _ _ _ hother => exact absurd rfl (hother w context)
  | starts u n c e₁ hu hstart _ ha hc =>
    injection hstart with _ huw _
    subst huw
    have hn : n = (e.desk m).nextId := by
      rcases ha.id with ⟨-, hn, -⟩ | ⟨hne, -⟩
      · exact hn
      · exact absurd hid hne
    have hkeys : (Entries.keys (e₁.desk m).running).Nodup := by
      rw [ha.running]
      exact Entries.nodup_keys_put ho.keys n w
    rw [← hn, running?_eq]
    -- The id leads to the new workflow now, or to none if that is over already.
    rcases hc.effect.running with hrun | ⟨-, -, -, hrun⟩
    · have hw₁ := ha.running? n
      rw [if_pos rfl, running?_eq] at hw₁
      rw [hrun, hw₁]
      exact fun h => hwv (Option.some.inj h)
    · rw [hrun, ha.self, Entries.get?_erase_self hkeys]
      exact nofun

theorem Orderly.freeId (ho : Orderly m members own e) (hq : h.Quiet) (hop : Manages m members e op)
    (hu : Undisplaced m members own op e (next h e op)) : FreeId m e op := by
  cases op with
  | start k w context =>
    obtain ⟨rfl, hw⟩ := hop
    intro hst hid
    cases hv : running? e k (e.desk k).nextId with
    | none => rfl
    | some v =>
      have hdis := ho.displaces hq hw hst hid hv context
      have hvm := ho.registered _ v hv
      have hwv : (some w : Option WorkflowId) ≠ some v := by
        intro h
        rw [← Option.some.inj h] at hvm
        exact (ho.newcomers w hw hst).1.not_managed hvm.2.1
      exact absurd ((hu.spared v hvm.1 hwv).running _ hv) hdis
  | _ => trivial

/-- A run displaces nobody exactly if every id that is taken from the counter is free. -/
theorem Orderly.undisplaced_iff (ho : Orderly m members own e) (hq : h.Quiet)
    {ops : List (Operation σ γ)} (hops : Along h (Manages m members) e ops) :
    Along h (fun e op => Undisplaced m members own op e (next h e op)) e ops ↔
      Along h (FreeId m) e ops := by
  induction ops generalizing e with
  | nil => exact Iff.rfl
  | cons op ops ih =>
    obtain ⟨hop, hrest⟩ := hops
    have hnext : FreeId m e op → Orderly m members own (next h e op) :=
      (ho.dealing hq hop).orderly ho
    constructor
    · rintro ⟨hu, hus⟩
      have hfree := ho.freeId hq hop hu
      exact ⟨hfree, (ih (hnext hfree) hrest).mp hus⟩
    · rintro ⟨hfree, hfrees⟩
      exact ⟨ho.undisplaced hq hop hfree, (ih (hnext hfree) hrest).mpr hfrees⟩

/-- Whatever ids its workflows bring, a manager displaces none of them exactly if no id is in use that it
takes from its counter. -/
theorem undisplaced_iff_freeId (hq : h.Quiet) (hopen : Opening m members e)
    {ops : List (Operation σ γ)} (hops : Along h (Manages m members) e ops) :
    Along h (fun e₁ op => Undisplaced m members e.graph op e₁ (next h e₁ op)) e ops ↔
      Along h (FreeId m) e ops :=
  hopen.orderly.undisplaced_iff hq hops

/-! ## An office with a counter -/

/-- With an id that the counter has not reached, nobody is displaced. -/
theorem office_undisplaced :
    Along loggingHooks (FreeId ⟨0⟩) (office 7) officeDay ∧
      Along loggingHooks (fun e op => Undisplaced ⟨0⟩ OfficeWork (office 7).graph op e
        (next loggingHooks e op)) (office 7) officeDay ∧
      running? (runs loggingHooks (office 7) officeDay) ⟨0⟩ 1 = some ⟨1⟩ ∧
      ((runs loggingHooks (office 7) officeDay).desk ⟨0⟩).finished = [⟨0⟩] := by
  have hfree : Along loggingHooks (FreeId ⟨0⟩) (office 7) officeDay := by
    have hid : ((office 7).workflow ⟨0⟩).id ≠ 0 := by decide +kernel
    have hrun : running? (next loggingHooks (office 7) (.start ⟨0⟩ ⟨0⟩ ())) ⟨0⟩
        ((next loggingHooks (office 7) (.start ⟨0⟩ ⟨0⟩ ())).desk ⟨0⟩).nextId = none := by
      decide +kernel
    exact ⟨fun _ h => absurd h hid, fun _ _ => hrun, trivial, trivial⟩
  have hday := (undisplaced_iff_freeId quiet_loggingHooks (opening_office (by decide))
    (manages_officeDay (office 7))).mpr hfree
  exact ⟨hfree, hday, by decide +kernel, by decide +kernel⟩

/-- With the id that the counter has reached, the first workflow is displaced by the second, although it
still waits for its decision. -/
theorem office_displaced :
    Opening ⟨0⟩ OfficeWork (office 1) ∧
      Along loggingHooks (Manages ⟨0⟩ OfficeWork) (office 1) officeDay ∧
      running? (runs loggingHooks (office 1) (officeDay.take 1)) ⟨0⟩ 1 = some ⟨0⟩ ∧
      running? (runs loggingHooks (office 1) (officeDay.take 2)) ⟨0⟩ 1 = some ⟨1⟩ ∧
      ((runs loggingHooks (office 1) (officeDay.take 2)).workflow ⟨0⟩).id = 1 ∧
      ((runs loggingHooks (office 1) (officeDay.take 2)).workflow ⟨0⟩).state = .waiting := by
  refine ⟨opening_office (by decide), manages_officeDay (office 1), ?_, ?_, ?_, ?_⟩
  all_goals decide +kernel

end ApprovalFlow.Engine
