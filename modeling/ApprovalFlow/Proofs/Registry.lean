import ApprovalFlow.Proofs.WorkflowEffects

/-!
# The register of running workflows

A manager finds its running workflows by their ids. In a register that is in order, each workflow that is
registered and not over is found under its own id, and whatever a workflow does (`Conduct`) leaves the
register in order (`Registry.of_conduct`) and spares the other workflows (`Registry.spares_conduct`).
-/

namespace ApprovalFlow.Engine

open Act

variable {σ γ : Type} {m : ManagerId} {members : WorkflowId → Prop}
  {own : WorkflowId → StepId → Prop} {w v : WorkflowId} {s : StepId} {silent : Prop}
  {e e' e'' : Engine σ}

/-- The register of the manager `m` is in order: it leads from ids to those workflows of the family
`members` that have them, and the queue holds decisions of workflows that are registered. -/
structure Registry (m : ManagerId) (members : WorkflowId → Prop) (own : WorkflowId → StepId → Prop)
    (e : Engine σ) : Prop where
  hasDesk : e.HasDesk m
  member : ∀ w, members w → Member (own w) w e
  disjoint : ∀ w v, members w → members v → w ≠ v → ∀ s, own w s → ¬own v s
  listens : ∀ w, members w → (e.workflow w).Observed ∨ (e.workflow w).Managed m
  registered : ∀ id v, running? e m id = some v →
    members v ∧ (e.workflow v).Managed m ∧ (e.workflow v).id = id
  live : ∀ w, members w → (e.workflow w).Managed m → (e.workflow w).state.isTerminal = false →
    running? e m (e.workflow w).id = some w
  keys : (Entries.keys (e.desk m).running).Nodup
  queued : ∀ s ∈ (e.desk m).queue, (e.step s).isDecision = true ∧
    ∃ v, members v ∧ running? e m (e.workflow v).id = some v ∧ own v s ∧ e.belongs v s = true
  finished : ∀ v ∈ (e.desk m).finished, members v ∧ (e.workflow v).Managed m ∧
    (e.workflow v).state.isTerminal = true

/-- A workflow that has not started has no manager yet and is on its first step. -/
def Newcomer (e : Engine σ) (w : WorkflowId) : Prop :=
  (e.workflow w).state = .created → (e.workflow w).Observed ∧
    (e.workflow w).current = (e.workflow w).first ∧ (e.step (e.workflow w).current).isStarted = false

structure Orderly (m : ManagerId) (members : WorkflowId → Prop) (own : WorkflowId → StepId → Prop)
    (e : Engine σ) : Prop extends Registry m members own e where
  newcomers : ∀ w, members w → e.Newcomer w

structure Spares (m : ManagerId) (own : WorkflowId → StepId → Prop) (v : WorkflowId) (e e' : Engine σ) :
    Prop where
  running : ∀ id, running? e m id = some v → running? e' m id = some v
  finished : v ∈ (e'.desk m).finished ↔ v ∈ (e.desk m).finished
  queue : ∀ s, own v s → (s ∈ (e'.desk m).queue ↔ s ∈ (e.desk m).queue)

theorem running?_of_desk (h : e'.desk m = e.desk m) (id : Int) : running? e' m id = running? e m id :=
  congrArg (fun d : Desk => Entries.get? id d.running) h

theorem running?_eq (e : Engine σ) (m : ManagerId) (id : Int) :
    running? e m id = Entries.get? id (e.desk m).running := rfl

theorem spares_of_desk (h : e'.desk m = e.desk m) : Spares m own v e e' where
  running id hid := (running?_of_desk h id).trans hid
  finished := by rw [h]
  queue s _ := by rw [h]

theorem Spares.trans (h : Spares m own v e e') (h' : Spares m own v e' e'') : Spares m own v e e'' where
  running id hid := h'.running id (h.running id hid)
  finished := h'.finished.trans h.finished
  queue s hs := (h'.queue s hs).trans (h.queue s hs)

theorem belongs_iff : e.belongs w s = true ↔ (e.step s).workflowId = some (e.workflow w).id := by
  unfold Engine.belongs
  rw [beq_iff_eq]

namespace Registry

variable (hr : Registry m members own e)
include hr

theorem ready (hw : members w) : Ready m (own w) w e where
  member := hr.member w hw
  hasDesk := hr.hasDesk
  listens := hr.listens w hw
  registered := hr.live w hw
  decisions s hs := (hr.queued s hs).1

/-- No step is in two of the workflows. -/
theorem owner_unique (hw : members w) (hv : members v) (hws : own w s) (hvs : own v s) : w = v := by
  by_cases h : w = v
  · exact h
  · exact absurd hvs (hr.disjoint w v hw hv h s hws)

/-- A queued decision of one workflow does not belong to another one that is running. -/
theorem not_belongs (hv : members v) (hs : s ∈ (e.desk m).queue) (hown : own v s) (hne : w ≠ v)
    (hrun : running? e m (e.workflow w).id = some w) : e.belongs w s = false := by
  obtain ⟨-, u, hu, hur, hus, hub⟩ := hr.queued s hs
  obtain rfl := hr.owner_unique hu hv hus hown
  rw [← Bool.not_eq_true]
  intro hwb
  -- Both ids are the one that the step is bound to, and it leads to one workflow only.
  have hid := (belongs_iff.mp hwb).symm.trans (belongs_iff.mp hub)
  rw [Option.some.inj hid, hur] at hrun
  exact hne (Option.some.inj hrun).symm

section Conduct

variable (hw : members w) (hc : Conduct silent m (own w) w e e')
include hw hc

theorem step_of_ne (hv : members v) (hne : v ≠ w) (hs : own v s) : e'.step s = e.step s :=
  hc.confined.steps s fun h => hr.disjoint w v hw hv hne.symm s h hs

theorem belongs_of_ne (hv : members v) (hne : v ≠ w) (hs : own v s) :
    e'.belongs v s = e.belongs v s := by
  unfold Engine.belongs
  rw [hr.step_of_ne hw hc hv hne hs, hc.confined.others v hne]

omit hr in
theorem managed_conduct : (e'.workflow v).Managed m ↔ (e.workflow v).Managed m := by
  by_cases h : v = w
  · subst h
    exact managed_of_listeners hc.confined.listeners
  · rw [hc.confined.others v h]

omit hr in
theorem id_conduct : (e'.workflow v).id = (e.workflow v).id := by
  by_cases h : v = w
  · subst h
    exact hc.confined.id
  · rw [hc.confined.others v h]

/-- The other workflows stay registered. -/
theorem registered_conduct (hne : w ≠ v) {id : Int} (hid : running? e m id = some v) :
    running? e' m id = some v := by
  rw [running?_eq] at hid ⊢
  rcases hc.effect.running with hrun | ⟨hman, hlive, -, hrun⟩
  · rw [hrun]; exact hid
  · -- What is taken out of the register is under another id.
    have hne' : id ≠ (e.workflow w).id := by
      rintro rfl
      have hreg := hr.live w hw hman hlive
      rw [running?_eq, hid] at hreg
      exact hne (Option.some.inj hreg).symm
    rw [hrun, Entries.get?_erase_of_ne _ hne']
    exact hid

/-- What happens to one workflow spares the others. -/
theorem spares_conduct (hv : members v) (hne : w ≠ v) : Spares m own v e e' := by
  -- The decisions of the other workflow do not belong to this one, so they are not dropped with it.
  have hbel : ∀ s ∈ (e.desk m).queue, own v s → running? e m (e.workflow w).id = some w →
      e'.belongs w s = false := by
    intro s hs hown hrun
    have hb := hr.not_belongs hv hs hown hne hrun
    unfold Engine.belongs at hb ⊢
    rw [hr.step_of_ne hw hc hv hne.symm hown, hc.confined.id]
    exact hb
  have hrunning : ∀ id, running? e m id = some v → running? e' m id = some v :=
    fun _ => hr.registered_conduct hw hc hne
  cases hc.effect with
  | idle _ _ hd => exact spares_of_desk hd
  | runs _ hd => exact spares_of_desk hd
  | unheard _ hd => exact spares_of_desk hd
  | waits _ _ _ hd =>
    refine ⟨hrunning, by rw [hd]; rfl, fun s hs => ?_⟩
    -- The decision that is enlisted is one of the other workflow's steps.
    have hcur : s ≠ (e'.workflow w).current := by
      rintro rfl
      exact hr.disjoint w v hw hv hne _ hc.member.current hs
    rw [hd, Desk.mem_enlisted]
    exact or_iff_left hcur
  | ends hman hlive _ hd =>
    have hreg := hr.live w hw hman hlive
    refine ⟨hrunning, ?_, fun s hs => ?_⟩
    · rw [hd]
      exact Desk.mem_filed.trans (or_iff_left hne.symm)
    · rw [hd]
      refine Desk.mem_keeping.trans (and_iff_left_of_imp fun h => ?_)
      rw [hbel s h hs hreg]
      rfl
  | lost hman hlive _ p hp hd =>
    have hreg := hr.live w hw hman hlive
    refine ⟨hrunning, by rw [hd]; rfl, fun s hs => ?_⟩
    rw [hd, Desk.mem_keeping]
    exact and_iff_left_of_imp fun h => hp s (hbel s h hs hreg)

omit hw in
/-- The register gains nothing. -/
theorem running_conduct {id : Int} {v : WorkflowId} (h : running? e' m id = some v) :
    running? e m id = some v := by
  rw [running?_eq] at h ⊢
  rcases hc.effect.running with hrun | ⟨-, -, -, hrun⟩
  · rwa [hrun] at h
  · rw [hrun] at h
    by_cases hid : id = (e.workflow w).id
    · subst hid
      rw [Entries.get?_erase_self hr.keys] at h
      contradiction
    · rwa [Entries.get?_erase_of_ne _ hid] at h

/-- A workflow that is still live is still registered. -/
theorem live_conduct (hman : (e'.workflow w).Managed m)
    (hlive : (e'.workflow w).state.isTerminal = false) :
    running? e' m (e'.workflow w).id = some w := by
  have hman₀ := (managed_conduct hw hc).mp hman
  have hlive₀ : (e.workflow w).state.isTerminal = false := by
    cases ht : (e.workflow w).state.isTerminal
    case false => rfl
    case true => rw [hc.live ht, ht] at hlive; contradiction
  have hreg := hr.live w hw hman₀ hlive₀
  rw [running?_eq] at hreg ⊢
  rcases hc.effect.running with hrun | ⟨-, -, hover, -⟩
  · rw [hrun, hc.confined.id, hreg]
  · rw [hlive] at hover
    contradiction

/-- A decision that was queued before keeps its workflow, unless that is no longer registered. -/
theorem queued_still (hs : s ∈ (e.desk m).queue)
    (hkeep : ∀ id, running? e m id = some w → e'.belongs w s = true → running? e' m id = some w) :
    (e'.step s).isDecision = true ∧ ∃ v, members v ∧ running? e' m (e'.workflow v).id = some v ∧
      own v s ∧ e'.belongs v s = true := by
  obtain ⟨hd, v, hv, hrun, hown, hb⟩ := hr.queued s hs
  refine ⟨by rw [hc.confined.decisions]; exact hd, v, hv, ?_, hown, ?_⟩
  · rw [id_conduct hw hc]
    by_cases hne : v = w
    · subst hne
      exact hkeep _ hrun (hc.confined.bindings s hb)
    · exact hr.registered_conduct hw hc (fun h => hne h.symm) hrun
  · by_cases hne : v = w
    · subst hne
      exact hc.confined.bindings s hb
    · rw [hr.belongs_of_ne hw hc hv hne hown]
      exact hb

theorem queued_conduct (hs : s ∈ (e'.desk m).queue) : (e'.step s).isDecision = true ∧
    ∃ v, members v ∧ running? e' m (e'.workflow v).id = some v ∧ own v s ∧ e'.belongs v s = true := by
  -- Where the register has not changed, the workflow is where it was.
  have old : (e'.desk m).running = (e.desk m).running → s ∈ (e.desk m).queue →
      (e'.step s).isDecision = true ∧ ∃ v, members v ∧ running? e' m (e'.workflow v).id = some v ∧
        own v s ∧ e'.belongs v s = true := by
    refine fun hrun hs => hr.queued_still hw hc hs fun id hid _ => ?_
    rw [running?_eq] at hid ⊢
    rw [hrun, hid]
  cases hc.effect with
  | idle _ _ hd => exact old (by rw [hd]) (hd ▸ hs)
  | runs _ hd => exact old (by rw [hd]) (hd ▸ hs)
  | unheard _ hd => exact old (by rw [hd]) (hd ▸ hs)
  | lost _ _ _ p _ hd =>
    rw [hd] at hs
    exact old (by rw [hd]; rfl) (Desk.mem_keeping.mp hs).1
  | ends _ _ _ hd =>
    -- The workflow is taken out of the register, and so are its decisions out of the queue.
    rw [hd] at hs
    obtain ⟨hmem, hnb⟩ := Desk.mem_keeping.mp hs
    refine hr.queued_still hw hc hmem fun _ _ hb => ?_
    rw [hb] at hnb
    contradiction
  | waits hman hasks hdec hd =>
    by_cases hcur : s = (e'.workflow w).current
    · subst hcur
      -- This is the decision that has just been enlisted.
      have hlive : (e'.workflow w).state.isTerminal = false := by rw [hasks.waiting]; rfl
      exact ⟨hdec, w, hw, hr.live_conduct hw hc ((managed_conduct hw hc).mpr hman) hlive,
        hc.member.current, hc.member.bound⟩
    · rw [hd, Desk.mem_enlisted] at hs
      exact old (by rw [hd]; rfl) (hs.resolve_right hcur)

theorem finished_conduct (hv : v ∈ (e'.desk m).finished) : members v ∧ (e'.workflow v).Managed m ∧
    (e'.workflow v).state.isTerminal = true := by
  have old : v ∈ (e.desk m).finished → members v ∧ (e'.workflow v).Managed m ∧
      (e'.workflow v).state.isTerminal = true := by
    intro hv
    obtain ⟨hmem, hman, hover⟩ := hr.finished v hv
    refine ⟨hmem, (managed_conduct hw hc).mpr hman, ?_⟩
    by_cases h : v = w
    · subst h
      rw [hc.live hover]
      exact hover
    · rw [hc.confined.others v h]
      exact hover
  cases hc.effect with
  | idle _ _ hd => exact old (hd ▸ hv)
  | runs _ hd => exact old (hd ▸ hv)
  | unheard _ hd => exact old (hd ▸ hv)
  | waits _ _ _ hd => exact old (by rw [hd] at hv; exact hv)
  | lost _ _ _ _ _ hd => exact old (by rw [hd] at hv; exact hv)
  | ends hman _ hover hd =>
    rw [hd] at hv
    rcases Desk.mem_filed.mp hv with h | rfl
    · exact old h
    · exact ⟨hw, (managed_conduct hw hc).mpr hman, hover⟩

/-- A workflow that conducts itself leaves the register in order. -/
theorem of_conduct : Registry m members own e' where
  hasDesk := hc.hasDesk
  disjoint := hr.disjoint
  member v hv := by
    by_cases h : v = w
    · subst h
      exact hc.member
    · have hm := hr.member v hv
      refine hm.stay (hc.confined.hasWorkflow v) hc.confined.hasStep hc.confined.targets
        (by rw [hc.confined.others v h]) fun hb => ?_
      rw [hr.belongs_of_ne hw hc hv h hm.current]
      exact hb
  listens v hv := by
    by_cases h : v = w
    · subst h
      unfold Workflow.Observed Workflow.Managed
      rw [hc.confined.listeners]
      exact hr.listens v hv
    · rw [hc.confined.others v h]
      exact hr.listens v hv
  registered id v hid := by
    obtain ⟨hv, hman, hvid⟩ := hr.registered id v (hr.running_conduct hc hid)
    exact ⟨hv, (managed_conduct hw hc).mpr hman, (id_conduct hw hc).trans hvid⟩
  -- A workflow that the manager lists is dropped only when it is over, and only by its own conduct.
  live v hv hman hlive := by
    by_cases h : v = w
    · subst h
      exact hr.live_conduct hw hc hman hlive
    · rw [hc.confined.others v h] at hman hlive ⊢
      exact hr.registered_conduct hw hc (fun h' => h h'.symm) (hr.live v hv hman hlive)
  keys := by
    rcases hc.effect.running with hrun | ⟨-, -, -, hrun⟩
    · rw [hrun]; exact hr.keys
    · rw [hrun]; exact hr.keys.sublist (Entries.keys_erase_sublist _ _)
  queued _ hs := hr.queued_conduct hw hc hs
  finished _ hv := hr.finished_conduct hw hc hv

/-- None of the others is a newcomer that was not one before. -/
theorem newcomers_conduct (hn : ∀ v, members v → v ≠ w → e.Newcomer v) (v : WorkflowId)
    (hv : members v) : e'.Newcomer v := by
  intro hs
  by_cases h : v = w
  · subst h
    exact absurd hs hc.started
  · rw [hc.confined.others v h] at hs ⊢
    rw [hr.step_of_ne hw hc hv h (hr.member v hv).current]
    exact hn v hv h hs

end Conduct

end Registry

end ApprovalFlow.Engine
