import ApprovalFlow.Proofs.Waiting

/-!
# Manager, workflows and queue stay in step

Whatever is done with workflows that bring no ids of their own, what their manager keeps stays in step with
them if no listener raises (`stays_in_step`): those it has accepted are running until they are over, and are
filed then; and its queue has the decisions that they wait for, in the order in which they came to wait.
-/

namespace ApprovalFlow.Engine

open Act

variable {σ γ : Type} {h : Hooks σ γ} {m : ManagerId} {members : WorkflowId → Prop}
  {own : WorkflowId → StepId → Prop} {w v : WorkflowId} {s t : StepId} {silent : Prop}
  {op : Operation σ γ} {ops : List (Operation σ γ)} {e e' : Engine σ}

/-- The manager has accepted the workflow in the course of a run. -/
def Admitted (h : Hooks σ γ) (m : ManagerId) (e : Engine σ) (ops : List (Operation σ γ))
    (w : WorkflowId) : Prop :=
  ∃ past context, past ++ [.start m w context] <+: ops ∧ ¬(runs h e past).Refused m w

/-- In the course of a run there was a time when `s` was awaited and `t` had not been awaited yet. -/
def Precedes (h : Hooks σ γ) (m : ManagerId) (e : Engine σ) (ops : List (Operation σ γ))
    (s t : StepId) : Prop :=
  ∃ past, past <+: ops ∧ Awaited m (runs h e past) s ∧
    ∀ earlier, earlier <+: past → ¬Awaited m (runs h e earlier) t

/-- After a run from `e` the manager `m` is in step with its workflows. -/
structure InStep (h : Hooks σ γ) (m : ManagerId) (members : WorkflowId → Prop) (e : Engine σ)
    (ops : List (Operation σ γ)) (e' : Engine σ) : Prop where
  running : ∀ id w, running? e' m id = some w ↔ members w ∧ Admitted h m e ops w ∧
    (e'.workflow w).id = id ∧ (e'.workflow w).state.isTerminal = false
  finished : ∀ w, members w → Admitted h m e ops w → (e'.workflow w).state.isTerminal = true →
    (e'.desk m).finished.count w = 1
  unfinished : ∀ w ∈ (e'.desk m).finished, members w ∧ Admitted h m e ops w ∧
    (e'.workflow w).state.isTerminal = true
  queued : ∀ s, s ∈ (e'.desk m).queue ↔ ∃ w, running? e' m (e'.workflow w).id = some w ∧
    (e'.workflow w).state = .waiting ∧ (e'.workflow w).current = s ∧
    (e'.step s).isDecision = true ∧ (e'.step s).isCompleted = false
  distinct : (e'.desk m).queue.Nodup
  ordered : (e'.desk m).queue.Pairwise (Precedes h m e ops)

theorem Admitted.mono {ops' : List (Operation σ γ)} (ha : Admitted h m e ops w) (hp : ops <+: ops') :
    Admitted h m e ops' w := by
  obtain ⟨past, context, hpast, hr⟩ := ha
  exact ⟨past, context, hpast.trans hp, hr⟩

theorem Precedes.mono {ops' : List (Operation σ γ)} (hs : Precedes h m e ops s t) (hp : ops <+: ops') :
    Precedes h m e ops' s t := by
  obtain ⟨past, hpast, hrest⟩ := hs
  exact ⟨past, hpast.trans hp, hrest⟩

theorem admitted_concat : Admitted h m e (ops ++ [op]) w ↔ Admitted h m e ops w ∨
    ∃ context, op = .start m w context ∧ ¬(runs h e ops).Refused m w := by
  constructor
  · rintro ⟨past, context, hp, hr⟩
    -- The operation that accepts is the last one, or an earlier one.
    rcases List.prefix_concat_iff.mp hp with heq | hp
    · obtain ⟨rfl, hop⟩ := List.append_inj' heq rfl
      exact .inr ⟨context, (List.singleton_inj.mp hop).symm, hr⟩
    · exact .inl ⟨past, context, hp, hr⟩
  · rintro (ha | ⟨context, rfl, hr⟩)
    · exact ha.mono (List.prefix_append ops [op])
    · exact ⟨ops, context, List.prefix_refl _, hr⟩

/-- The manager begins to listen to the workflows that it accepts. -/
theorem Dealing.managed_iff (hd : Dealing silent m members own op e e') (ho : Orderly m members own e) :
    (e'.workflow v).Managed m ↔ (e.workflow v).Managed m ∨
      ∃ context, op = .start m v context ∧ ¬e.Refused m v := by
  have hkeep : ((e'.workflow v).Managed m ↔ (e.workflow v).Managed m) →
      (∀ context, op ≠ .start m v context) → ((e'.workflow v).Managed m ↔
        (e.workflow v).Managed m ∨ ∃ context, op = .start m v context ∧ ¬e.Refused m v) := by
    intro hiff hother
    rw [hiff]
    refine ⟨.inl, fun h => h.elim id ?_⟩
    rintro ⟨context, hop, -⟩
    exact absurd hop (hother context)
  cases hd with
  | reassigns hrefused hr =>
    rw [hr.steady.workflow]
    refine ⟨.inl, fun h => h.elim id ?_⟩
    rintro ⟨context, hop, hn⟩
    exact absurd (hrefused v context hop) hn
  | conducts w hw _ hother hc => exact hkeep (Registry.managed_conduct hw hc) (hother v)
  | answers _ _ _ hother ha => exact hkeep (by rw [ha.steady.workflow]) (hother v)
  | decides s w e₁ _ _ hb hother ha hc =>
    have hw := (ho.registered _ w hb).1
    refine hkeep ((Registry.managed_conduct hw hc).trans ?_) (hother v)
    rw [ha.steady.workflow]
  | starts w n context e₁ hw hop hst ha hc =>
    rw [Registry.managed_conduct hw hc]
    by_cases hvw : v = w
    · subst hvw
      exact iff_of_true (ha.managed (ho.newcomers v hw hst).1)
        (.inr ⟨context, hop, ha.not_refused hst⟩)
    · rw [ha.others v hvw]
      refine ⟨.inl, fun h => h.elim id ?_⟩
      rintro ⟨c, hop', -⟩
      rw [hop] at hop'
      injection hop' with _ hwv _
      exact absurd hwv.symm hvw

section Run

variable (hq : h.Quiet) (hsil : h.Silent) (ho : Orderly m members own e) (ht : Tally m members e)
include hq hsil ho ht

/-- Along a run the register is in order and the tally is kept. -/
theorem kept_along (hops : Along h (Manages m members) e ops) :
    Orderly m members own (runs h e ops) ∧ Tally m members (runs h e ops) := by
  refine runs_invariant (P := fun e => Orderly m members own e ∧ Tally m members e) ?_ ⟨ho, ht⟩ hops
  rintro e op ⟨ho, ht⟩ hop
  have hd := ho.dealing hq hop
  exact ⟨hd.orderly ho (ht.freeId op), hd.tally ho hsil ht⟩

/-- The manager listens to the workflows that it has accepted. -/
theorem managed_iff_admitted (hnone : ∀ v, members v → ¬(e.workflow v).Managed m)
    (hops : Along h (Manages m members) e ops) (hv : members v) :
    ((runs h e ops).workflow v).Managed m ↔ Admitted h m e ops v := by
  refine runs_induction (P := fun ops => ((runs h e ops).workflow v).Managed m ↔ Admitted h m e ops v)
    ?_ (fun ops op hops hop ih => ?_) hops
  · refine iff_of_false (hnone v hv) ?_
    rintro ⟨past, context, hp, -⟩
    have := List.prefix_nil.mp hp
    simp at this
  · obtain ⟨ho', -⟩ := kept_along hq hsil ho ht hops
    rw [runs_concat, (ho'.dealing hq hop).managed_iff ho', ih, admitted_concat]

/-- What was awaited in the course of a run is awaited still, or has lapsed. -/
theorem awaits_along (hops : Along h (Manages m members) e ops)
    (haw : AwaitedBy m w s e) :
    AwaitedBy m w s (runs h e ops) ∨ Lapsed w s (runs h e ops) := by
  have hrun := runs_invariant (P := fun e => (Orderly m members own e ∧ Tally m members e) ∧
    (AwaitedBy m w s e ∨ Lapsed w s e)) ?_ ⟨⟨ho, ht⟩, .inl haw⟩ hops
  · exact hrun.2
  rintro e op ⟨⟨ho, ht⟩, haw⟩ hop
  have hd := ho.dealing hq hop
  refine ⟨⟨hd.orderly ho (ht.freeId op), hd.tally ho hsil ht⟩, ?_⟩
  rcases haw with haw | hl
  · exact hd.awaits ho ht haw
  · exact .inr (hd.lapsed hl)

/-- The queue has decisions in the order in which they came to be awaited. -/
theorem ordered_along (hempty : (e.desk m).queue = []) (hops : Along h (Manages m members) e ops) :
    ((runs h e ops).desk m).queue.Pairwise (Precedes h m e ops) := by
  refine runs_induction
    (P := fun ops => ((runs h e ops).desk m).queue.Pairwise (Precedes h m e ops)) ?_
    (fun ops op hops hop ih => ?_) hops
  · rw [runs_nil, hempty]
    exact .nil
  obtain ⟨ho₁, ht₁⟩ := kept_along hq hsil ho ht hops
  have hd := ho₁.dealing hq hop
  have ho' := hd.orderly ho₁ (ht₁.freeId op)
  have ht' := hd.tally ho₁ hsil ht₁
  have hpre : ops <+: ops ++ [op] := List.prefix_append ops [op]
  obtain ⟨kept, new, hqueue, hkept, hlen, hnew⟩ := hd.grows ht'
  -- The kept ones are in order by induction; the new one comes after all of them.
  rw [runs_concat, hqueue, List.pairwise_append]
  refine ⟨(ih.sublist hkept).imp fun hp => hp.mono hpre, ?_, fun s hs t htn => ?_⟩
  · match new, hlen with
    | [], _ => exact .nil
    | [t], _ => exact List.pairwise_singleton _ t
  · refine ⟨ops, hpre, (ht₁.queue s).mp (hkept.subset hs), fun earlier hp haw => ?_⟩
    obtain ⟨rest, rfl⟩ := hp
    obtain ⟨w, hw⟩ := haw
    obtain ⟨hearly, hlate⟩ := (along_append e earlier rest).mp hops
    obtain ⟨ho₀, ht₀⟩ := kept_along hq hsil ho ht hearly
    obtain ⟨hwm, hwt⟩ := hw.member ho₀.toRegistry
    -- It would be queued still, or have lapsed and never be awaited again.
    have hsince := awaits_along hq hsil ho₀ ht₀ hlate hw
    rw [← runs_append] at hsince
    rcases hsince with hstill | hl
    · exact hnew t htn ((ht₁.queue t).mpr ⟨w, hstill⟩)
    · refine (hd.lapsed hl).not_awaited ho'.toRegistry hwm hwt ((ht'.queue t).mp ?_)
      rw [hqueue]
      exact List.mem_append_right _ htn

end Run

theorem Opening.tally (hopen : Opening m members e) (hid : ∀ w, members w → (e.workflow w).id = 0) :
    Tally m members e := by
  have hrun : ∀ id, running? e m id = none := by
    intro id
    rw [running?_eq, hopen.desk]
    rfl
  refine
    { ended := fun w hw hm _ => absurd hm (hopen.observed w hw).not_managed
      ids := fun id v hv => ?_
      unnumbered := fun w hw _ => hid w hw
      queue := fun s => ?_
      nodup := by rw [hopen.desk]; exact .nil }
  · rw [hrun] at hv
    contradiction
  · rw [hopen.desk]
    refine iff_of_false List.not_mem_nil ?_
    rintro ⟨w, hw⟩
    have := hw.registered
    rw [hrun] at this
    contradiction

/-- Whatever is done with workflows that bring no ids, their manager stays in step with them. -/
theorem stays_in_step (hq : h.Quiet) (hsil : h.Silent) (hopen : Opening m members e)
    (hid : ∀ w, members w → (e.workflow w).id = 0) (hops : Along h (Manages m members) e ops) :
    InStep h m members e ops (runs h e ops) := by
  have ho := hopen.orderly
  have ht := hopen.tally hid
  obtain ⟨ho', ht'⟩ := kept_along hq hsil ho ht hops
  have hadmitted : ∀ v, members v → (((runs h e ops).workflow v).Managed m ↔ Admitted h m e ops v) :=
    fun v hv => managed_iff_admitted hq hsil ho ht (fun w hw => (hopen.observed w hw).not_managed)
      hops hv
  refine
    { running := fun id w => ⟨fun hrun => ?_, ?_⟩
      finished := fun w hw ha hover => (ht'.ended w hw ((hadmitted w hw).mpr ha) hover).2
      unfinished := fun w hw => ?_
      queued := fun s => ?_
      distinct := ht'.nodup
      ordered := ordered_along hq hsil ho ht (by rw [hopen.desk]) hops }
  · obtain ⟨hw, hman, hwid⟩ := ho'.registered id w hrun
    refine ⟨hw, (hadmitted w hw).mp hman, hwid, ?_⟩
    rw [← Bool.not_eq_true]
    exact fun hover => (ht'.ended w hw hman hover).1 id hrun
  · rintro ⟨hw, ha, rfl, hlive⟩
    exact ho'.live w hw ((hadmitted w hw).mpr ha) hlive
  · obtain ⟨hwm, hman, hover⟩ := ho'.finished w hw
    exact ⟨hwm, (hadmitted w hwm).mp hman, hover⟩
  · rw [ht'.queue]
    constructor
    · rintro ⟨w, hw⟩
      exact ⟨w, hw.registered, hw.asks.waiting, hw.current, hw.decision, hw.unanswered⟩
    · rintro ⟨w, hrun, hwait, hcur, hdec, hopen⟩
      exact ⟨w, hrun, ⟨hwait, by rw [hcur]; exact hopen⟩, hcur, hdec⟩

theorem silent_loggingHooks : loggingHooks.Silent := fun _ _ _ => rfl

/-- At the end of its day the office has filed the workflow that was decided, and waits for the other. -/
theorem office_in_step :
    Along loggingHooks (Manages ⟨0⟩ OfficeWork) (office 0) officeDay ∧
      InStep loggingHooks ⟨0⟩ OfficeWork (office 0) officeDay
        (runs loggingHooks (office 0) officeDay) ∧
      (runs loggingHooks (office 0) officeDay).desk ⟨0⟩ = ⟨3, [(2, ⟨1⟩)], [⟨0⟩], [⟨1⟩]⟩ := by
  have hid : ∀ w ∈ [(⟨0⟩ : WorkflowId), ⟨1⟩], ((office 0).workflow w).id = 0 := by decide +kernel
  exact ⟨manages_officeDay (office 0),
    stays_in_step quiet_loggingHooks silent_loggingHooks (opening_office (by decide)) hid
      (manages_officeDay (office 0)), by decide +kernel⟩

end ApprovalFlow.Engine
