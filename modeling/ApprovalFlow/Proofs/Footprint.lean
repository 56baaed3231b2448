import ApprovalFlow.Proofs.LocalRelations
import ApprovalFlow.Proofs.Registry
import ApprovalFlow.Proofs.Transparency

/-!
# The footprint of a workflow

A workflow has a precinct of its own: itself and its steps, its context and what its hooks keep, its decisions
in the queue of its manager and its entries in the register. Two engines may have the same precinct of a
workflow (`SamePrecinct`), and an engine may change within the precinct alone (`Within`). Where both hold of
engines, they go on to hold as the workflow and its steps change alike (`paired_bond`).
-/

namespace ApprovalFlow

open Act

variable {σ κ γ : Type}

/-- All is the same, but times compare by whether they are set. -/
abbrev Likeness.untimed (σ : Type) : Likeness σ σ := .kin (fun _ _ => True) (fun _ => 0) 0

theorem Step.Like.symm {a b : Step} (h : Step.Like (.untimed σ) a b) : Step.Like (.untimed σ) b a where
  kind := h.kind.symm
  key := h.key.symm
  isTask := h.isTask.symm
  actor := h.actor.symm
  state := h.state.symm
  outcome := Eq.symm h.outcome
  successors := (h.successors.imp fun _ _ hs => ⟨Eq.symm hs.outcome, hs.target.symm⟩).flip
  startTime := Iff.symm h.startTime
  endTime := Iff.symm h.endTime
  workflowId := h.workflowId.symm
  context := h.context.symm
  decision := h.decision.symm

theorem Workflow.Like.symm {a b : Workflow} (h : Workflow.Like (.untimed σ) a b) :
    Workflow.Like (.untimed σ) b a where
  key := h.key.symm
  owner := h.owner.symm
  id := h.id.symm
  state := h.state.symm
  first := h.first.symm
  current := h.current.symm
  previous := h.previous.symm
  history := h.history.symm
  context := h.context.symm
  arguments := h.arguments.symm
  listeners := h.listeners.symm
  startTime := Iff.symm h.startTime
  endTime := Iff.symm h.endTime

namespace Engine

/-- The workflow `w` has a precinct with the manager `m`, of which the steps `mine` are part: no other manager
listens to `w`, its steps are not bound elsewhere, and what is bound to it in the queue are its own steps. -/
structure Precinct (m : ManagerId) (mine : StepId → Prop) (w : WorkflowId) (e : Engine σ) : Prop
    extends Member mine w e where
  hasDesk : e.HasDesk m
  timely : e.clock.Timely
  audience : ∀ n, .manager n ∈ (e.workflow w).listeners → n = m
  keys : (Entries.keys (e.desk m).running).Nodup
  registered : ∀ id, running? e m id = some w → (e.workflow w).id = id
  lodged : ∀ s, mine s → Lodged w e s
  decisions : ∀ s ∈ (e.desk m).queue, (e.step s).isDecision = true
  queued : ∀ s ∈ (e.desk m).queue, mine s →
    running? e m (e.workflow w).id = some w ∧ e.belongs w s = true
  foreign : running? e m (e.workflow w).id = some w →
    ∀ s ∈ (e.desk m).queue, ¬mine s → e.belongs w s = false

/-- The precinct of `w` is the same in both engines, times apart; `part w` is what of the host is in it. -/
structure SamePrecinct (m : ManagerId) (part : WorkflowId → σ → κ) (mine : StepId → Prop) (w : WorkflowId)
    (e e' : Engine σ) : Prop where
  size : e.steps.size = e'.steps.size
  extent : e.contexts.size = e'.contexts.size
  step : ∀ s, mine s → Step.Like (.untimed σ) (e.step s) (e'.step s)
  errors : ∀ s, mine s → (e.step s).errors = (e'.step s).errors
  workflow : Workflow.Like (.untimed σ) (e.workflow w) (e'.workflow w)
  context : e.context (e.workflow w).context = e'.context (e.workflow w).context
  part : part w e.host = part w e'.host
  queueId : (e.manager m).queue = (e'.manager m).queue
  queue : ∀ s, mine s → (s ∈ (e.desk m).queue ↔ s ∈ (e'.desk m).queue)
  running : ∀ id, running? e m id = some w ↔ running? e' m id = some w
  finished : w ∈ (e.desk m).finished ↔ w ∈ (e'.desk m).finished

structure Contained (part : WorkflowId → σ → κ) (w : WorkflowId) (e e' : Engine σ) : Prop where
  extent : e'.contexts.size = e.contexts.size
  contexts : ∀ c, c ≠ (e.workflow w).context → e'.context c = e.context c
  parts : ∀ v, v ≠ w → part v e'.host = part v e.host
  readings : e'.clock.reading = e.clock.reading

/-- Contexts are as they were, and what hooks keep, and the clock has ticked at most. -/
structure Unstirred (part : WorkflowId → σ → κ) (e e' : Engine σ) : Prop where
  extent : e'.contexts.size = e.contexts.size
  contexts : ∀ c, e'.context c = e.context c
  parts : ∀ v, part v e'.host = part v e.host
  readings : e'.clock.reading = e.clock.reading

structure Within (m : ManagerId) (part : WorkflowId → σ → κ) (mine : StepId → Prop) (w : WorkflowId)
    (e e' : Engine σ) : Prop extends Contained part w e e' where
  size : e'.steps.size = e.steps.size
  count : e'.workflows.size = e.workflows.size
  steps : ∀ s, ¬mine s → e'.step s = e.step s
  others : ∀ v, v ≠ w → e'.workflow v = e.workflow v
  id : (e'.workflow w).id = (e.workflow w).id
  context : (e'.workflow w).context = (e.workflow w).context
  listeners : (e'.workflow w).listeners = (e.workflow w).listeners
  queueId : (e'.manager m).queue = (e.manager m).queue
  queue : ∀ s, ¬mine s → (s ∈ (e'.desk m).queue ↔ s ∈ (e.desk m).queue)
  running : ∀ id v, v ≠ w → (running? e' m id = some v ↔ running? e m id = some v)
  gained : ∀ id, running? e' m id = some w → running? e m id = some w
  finished : ∀ v, v ≠ w → (v ∈ (e'.desk m).finished ↔ v ∈ (e.desk m).finished)

/-- The workflow `w` and its own steps have changed, and no desk; what was bound to `w` still is. -/
structure Inward (part : WorkflowId → σ → κ) (mine : StepId → Prop) (w : WorkflowId) (e e' : Engine σ) :
    Prop extends Contained part w e e' where
  size : e'.steps.size = e.steps.size
  count : e'.workflows.size = e.workflows.size
  steps : ∀ s, ¬mine s → e'.step s = e.step s
  others : ∀ v, v ≠ w → e'.workflow v = e.workflow v
  targets : ∀ s, e'.targets s = e.targets s
  decisions : ∀ s, (e'.step s).isDecision = (e.step s).isDecision
  bindings : ∀ s, mine s → e.belongs w s = true → e'.belongs w s = true
  lodgings : ∀ s, mine s → Lodged w e s → Lodged w e' s
  id : (e'.workflow w).id = (e.workflow w).id
  context : (e'.workflow w).context = (e.workflow w).context
  listeners : (e'.workflow w).listeners = (e.workflow w).listeners
  queues : e'.queues = e.queues
  managers : e'.managers = e.managers

/-- From `b` to `e` nothing has changed beyond the precinct of `w`, and if the manager listens to `w`, its id
leads to no other workflow. -/
structure Secluded (m : ManagerId) (part : WorkflowId → σ → κ) (mine : StepId → Prop) (w : WorkflowId)
    (b e : Engine σ) : Prop extends Precinct m mine w e where
  home : .manager m ∈ (e.workflow w).listeners →
    ∀ v, running? e m (e.workflow w).id = some v → v = w
  within : Within m part mine w b e

/-- The engines have the same precinct of `w`, which each of them has kept to since `b` or `b'`. -/
structure Paired (m : ManagerId) (part : WorkflowId → σ → κ) (mine : StepId → Prop) (w : WorkflowId)
    (b b' e e' : Engine σ) : Prop where
  same : SamePrecinct m part mine w e e'
  left : Secluded m part mine w b e
  right : Secluded m part mine w b' e'

variable {m : ManagerId} {part : WorkflowId → σ → κ} {mine : StepId → Prop} {w : WorkflowId} {s t : StepId}
  {b b' e e₁ e₂ e' e₁' : Engine σ}

/-! ## Changes of one engine -/

section Contained

theorem contained_refl (e : Engine σ) : Contained part w e e := ⟨rfl, fun _ _ => rfl, fun _ _ => rfl, rfl⟩

theorem Contained.trans (h : Contained part w e e₁) (h' : Contained part w e₁ e₂)
    (hc : (e₁.workflow w).context = (e.workflow w).context) : Contained part w e e₂ where
  extent := h'.extent.trans h.extent
  contexts c hne := (h'.contexts c (by rw [hc]; exact hne)).trans (h.contexts c hne)
  parts v hne := (h'.parts v hne).trans (h.parts v hne)
  readings := h'.readings.trans h.readings

theorem Unstirred.contained (h : Unstirred part e e₁) : Contained part w e e₁ :=
  ⟨h.extent, fun c _ => h.contexts c, fun v _ => h.parts v, h.readings⟩

theorem unstirred_of_same (hc : e₁.contexts = e.contexts) (hh : e₁.host = e.host)
    (hr : e₁.clock.reading = e.clock.reading) : Unstirred part e e₁ where
  extent := congrArg Array.size hc
  contexts c := congrArg (fun cs : Array Context => cs.getD c.index default) hc
  parts v := congrArg (part v) hh
  readings := hr

theorem unstirred_of_off (_ : e₁.steps = e.steps) (_ : e₁.workflows = e.workflows)
    (hc : e₁.contexts = e.contexts) (hh : e₁.host = e.host) (hr : e₁.clock = e.clock) :
    Unstirred part e e₁ := unstirred_of_same hc hh (by rw [hr])

instance : IsPreorder (Engine σ) (Unstirred part) where
  refl _ := unstirred_of_same rfl rfl rfl
  trans _ _ _ h h' := ⟨h'.extent.trans h.extent, fun c => (h'.contexts c).trans (h.contexts c),
    fun v => (h'.parts v).trans (h.parts v), h'.readings.trans h.readings⟩

end Contained

section Inward

theorem Inward.trans (h : Inward part mine w e e₁) (h' : Inward part mine w e₁ e₂) :
    Inward part mine w e e₂ where
  toContained := h.toContained.trans h'.toContained h.context
  steps s hs := (h'.steps s hs).trans (h.steps s hs)
  others v hv := (h'.others v hv).trans (h.others v hv)
  size := h'.size.trans h.size
  count := h'.count.trans h.count
  targets s := (h'.targets s).trans (h.targets s)
  decisions s := (h'.decisions s).trans (h.decisions s)
  bindings s hs hb := h'.bindings s hs (h.bindings s hs hb)
  lodgings s hs hl := h'.lodgings s hs (h.lodgings s hs hl)
  id := h'.id.trans h.id
  context := h'.context.trans h.context
  listeners := h'.listeners.trans h.listeners
  queues := h'.queues.trans h.queues
  managers := h'.managers.trans h.managers

theorem inward_of_core (hc : e₁.core = e.core) (hb : Contained part w e e₁) : Inward part mine w e e₁ where
  toContained := hb
  steps s _ := step_of_core hc s
  others v _ := workflow_of_core hc v
  size := congrArg (·.steps.size) hc
  count := congrArg (·.workflows.size) hc
  targets s := targets_of_successors (by rw [step_of_core hc])
  decisions s := by rw [step_of_core hc]
  bindings s _ hb := by
    unfold Engine.belongs at hb ⊢
    rwa [step_of_core hc, workflow_of_core hc]
  lodgings s _ hl := by
    unfold Lodged at hl ⊢
    rwa [step_of_core hc, workflow_of_core hc]
  id := by rw [workflow_of_core hc]
  context := by rw [workflow_of_core hc]
  listeners := by rw [workflow_of_core hc]
  queues := congrArg Core.queues hc
  managers := congrArg Core.managers hc

theorem inward_mapStep (hs : mine s) {f : Step → Step}
    (hsucc : (f (e.step s)).successors = (e.step s).successors)
    (hdec : (f (e.step s)).isDecision = (e.step s).isDecision)
    (hid : (e.step s).workflowId = some (e.workflow w).id →
      (f (e.step s)).workflowId = some (e.workflow w).id)
    (hctx : Lodged w e s → ∀ c, (f (e.step s)).context = some c → c = (e.workflow w).context) :
    Inward part mine w e (e.mapStep s f) where
  toContained := ⟨rfl, fun _ _ => rfl, fun _ _ => rfl, rfl⟩
  steps t ht := step_mapStep_of_ne t f fun h => ht (h ▸ hs)
  others _ _ := rfl
  size := Array.size_modify ..
  count := rfl
  targets t := targets_of_successors (step_mapStep_eq hsucc t)
  decisions := step_mapStep_eq hdec
  bindings t _ hb := by
    rw [belongs_iff] at hb ⊢
    exact step_mapStep_keeps (p := (·.workflowId = some (e.workflow w).id)) hid hb
  lodgings t _ hl c hc := by
    rw [step_mapStep] at hc
    split at hc
    · rename_i ht
      rw [ht.1] at hl hc
      exact hctx hl c hc
    · exact hl c hc
  id := rfl
  context := rfl
  listeners := rfl
  queues := rfl
  managers := rfl

theorem inward_mapWorkflow {f : Workflow → Workflow} (hid : (f (e.workflow w)).id = (e.workflow w).id)
    (hc : (f (e.workflow w)).context = (e.workflow w).context)
    (hl : (f (e.workflow w)).listeners = (e.workflow w).listeners) :
    Inward part mine w e (e.mapWorkflow w f) := by
  have hsame : ((e.mapWorkflow w f).workflow w).id = (e.workflow w).id := workflow_mapWorkflow_eq hid w
  have hcontext : ((e.mapWorkflow w f).workflow w).context = (e.workflow w).context :=
    workflow_mapWorkflow_eq hc w
  exact
    { toContained := ⟨rfl, fun _ _ => rfl, fun _ _ => rfl, rfl⟩
      steps := fun _ _ => rfl
      others := fun v hv => workflow_mapWorkflow_of_ne v f hv
      size := rfl
      count := Array.size_modify ..
      targets := fun _ => rfl
      decisions := fun _ => rfl
      bindings := fun s _ hb => by
        unfold Engine.belongs at hb ⊢
        rw [hsame]
        exact hb
      lodgings := fun s _ hl c hs => by
        rw [hcontext]
        exact hl c hs
      id := hsame
      context := hcontext
      listeners := workflow_mapWorkflow_eq hl w
      queues := rfl
      managers := rfl }

theorem Inward.desk (h : Inward part mine w e e₁) (m : ManagerId) : e₁.desk m = e.desk m := by
  unfold Engine.desk Engine.manager Engine.queue
  rw [h.managers, h.queues]

/-- What is not one of the own steps is bound as before. -/
theorem Inward.belongs (h : Inward part mine w e e₁) (hs : ¬mine s) : e₁.belongs w s = e.belongs w s := by
  unfold Engine.belongs
  rw [h.steps s hs, h.id]

end Inward

section Within

theorem within_refl (e : Engine σ) : Within m part mine w e e where
  toContained := contained_refl e
  size := rfl
  count := rfl
  steps _ _ := rfl
  others _ _ := rfl
  id := rfl
  context := rfl
  listeners := rfl
  queueId := rfl
  queue _ _ := Iff.rfl
  running _ _ _ := Iff.rfl
  gained _ := id
  finished _ _ := Iff.rfl

theorem Within.trans (h : Within m part mine w e e₁) (h' : Within m part mine w e₁ e₂) :
    Within m part mine w e e₂ where
  toContained := h.toContained.trans h'.toContained h.context
  size := h'.size.trans h.size
  count := h'.count.trans h.count
  steps s hs := (h'.steps s hs).trans (h.steps s hs)
  others v hv := (h'.others v hv).trans (h.others v hv)
  id := h'.id.trans h.id
  context := h'.context.trans h.context
  listeners := h'.listeners.trans h.listeners
  queueId := h'.queueId.trans h.queueId
  queue s hs := (h'.queue s hs).trans (h.queue s hs)
  running id v hv := (h'.running id v hv).trans (h.running id v hv)
  gained id hid := h.gained id (h'.gained id hid)
  finished v hv := (h'.finished v hv).trans (h.finished v hv)

theorem Inward.within (h : Inward part mine w e e₁) : Within m part mine w e e₁ where
  toContained := h.toContained
  size := h.size
  count := h.count
  steps := h.steps
  others := h.others
  id := h.id
  context := h.context
  listeners := h.listeners
  queueId := by rw [manager_of_managers h.managers]
  queue s _ := by rw [h.desk]
  running id v _ := by rw [running?_of_desk (h.desk m)]
  gained id hid := by rwa [running?_of_desk (h.desk m)] at hid
  finished v _ := by rw [h.desk]

/-- Going on to a step keeps to the precinct if that step is one of it and bound to the workflow. -/
theorem Secluded.inward (hk : Secluded m part mine w b e) (hi : Inward part mine w e e₁)
    (hcur : mine (e₁.workflow w).current) (hbound : e₁.belongs w (e₁.workflow w).current = true) :
    Secluded m part mine w b e₁ where
  hasWorkflow := by
    unfold HasWorkflow
    rw [hi.count]
    exact hk.hasWorkflow
  hasStep s hs := (hasStep_of_size hi.size s).mpr (hk.hasStep s hs)
  closed s hs t ht := hk.closed s hs t (hi.targets s ▸ ht)
  current := hcur
  bound := hbound
  hasDesk := hk.hasDesk.same hi.managers hi.queues
  timely n := by rw [hi.readings]; exact hk.timely n
  audience := by rw [hi.listeners]; exact hk.audience
  keys := by rw [hi.desk]; exact hk.keys
  registered id hid := by
    rw [running?_of_desk (hi.desk m)] at hid
    rw [hi.id]
    exact hk.registered id hid
  lodged s hs := hi.lodgings s hs (hk.lodged s hs)
  decisions s hs := by
    rw [hi.desk] at hs
    rw [hi.decisions]
    exact hk.decisions s hs
  queued s hs hm := by
    rw [hi.desk] at hs
    obtain ⟨hrun, hb⟩ := hk.queued s hs hm
    rw [running?_of_desk (hi.desk m), hi.id]
    exact ⟨hrun, hi.bindings s hm hb⟩
  foreign hrun s hs hm := by
    rw [running?_of_desk (hi.desk m), hi.id] at hrun
    rw [hi.desk] at hs
    rw [hi.belongs hm]
    exact hk.foreign hrun s hs hm
  home hl v hv := by
    rw [hi.listeners] at hl
    rw [running?_of_desk (hi.desk m), hi.id] at hv
    exact hk.home hl v hv
  within := hk.within.trans hi.within

theorem Secluded.stay (hk : Secluded m part mine w b e) (hi : Inward part mine w e e₁)
    (hcur : (e₁.workflow w).current = (e.workflow w).current) : Secluded m part mine w b e₁ :=
  hk.inward hi (by rw [hcur]; exact hk.current)
    (by rw [hcur]; exact hi.bindings _ hk.current hk.bound)

end Within

/-! ## Changes of both engines -/

section Same

theorem SamePrecinct.symm (h : SamePrecinct m part mine w e e') : SamePrecinct m part mine w e' e where
  size := h.size.symm
  extent := h.extent.symm
  step s hs := (h.step s hs).symm
  errors s hs := (h.errors s hs).symm
  workflow := h.workflow.symm
  context := by rw [← h.workflow.context]; exact h.context.symm
  part := h.part.symm
  queueId := h.queueId.symm
  queue s hs := (h.queue s hs).symm
  running id := (h.running id).symm
  finished := h.finished.symm

variable {f f' : Step → Step} {g g' : Workflow → Workflow} (h : SamePrecinct m part mine w e e')
include h

theorem SamePrecinct.hasStep (s : StepId) : e.HasStep s ↔ e'.HasStep s := by
  unfold HasStep
  rw [h.size]

theorem SamePrecinct.mapStep (hl : mine s → Step.Like (.untimed σ) (f (e.step s)) (f' (e'.step s)))
    (he : mine s → (f (e.step s)).errors = (f' (e'.step s)).errors) :
    SamePrecinct m part mine w (e.mapStep s f) (e'.mapStep s f') :=
  { h with
    size := by simpa [Engine.mapStep] using h.size
    step := fun t ht => by
      simp only [step_mapStep, h.hasStep s]
      split
      · rename_i hts
        rw [hts.1] at ht ⊢
        exact hl ht
      · exact h.step t ht
    errors := fun t ht => by
      simp only [step_mapStep, h.hasStep s]
      split
      · rename_i hts
        rw [hts.1] at ht ⊢
        exact he ht
      · exact h.errors t ht }

theorem SamePrecinct.mapWorkflow (hw : e.HasWorkflow w) (hw' : e'.HasWorkflow w)
    (hl : Workflow.Like (.untimed σ) (g (e.workflow w)) (g' (e'.workflow w)))
    (hc : (g (e.workflow w)).context = (e.workflow w).context) :
    SamePrecinct m part mine w (e.mapWorkflow w g) (e'.mapWorkflow w g') := by
  have hg := workflow_mapWorkflow_self g hw
  have hg' := workflow_mapWorkflow_self g' hw'
  refine { h with workflow := by rw [hg, hg']; exact hl, context := ?_ }
  rw [hg, hc]
  exact h.context

end Same

section Paired

variable (h : Paired m part mine w b b' e e')
include h

theorem Paired.mapStep (hs : mine s) {f f' : Step → Step} (hf : ∀ st, (f st).ties.2 = st.ties.2)
    (hf' : ∀ st, (f' st).ties.2 = st.ties.2)
    (hl : Step.Like (.untimed σ) (f (e.step s)) (f' (e'.step s)))
    (he : (f (e.step s)).errors = (f' (e'.step s)).errors) :
    Paired m part mine w b b' (e.mapStep s f) (e'.mapStep s f') := by
  have hinward : ∀ {f : Step → Step} (e : Engine σ), (∀ st, (f st).ties.2 = st.ties.2) →
      Inward part mine w e (e.mapStep s f) := fun e hf => by
    have hties := hf (e.step s)
    exact inward_mapStep hs (congrArg (·.1) hties) (congrArg (·.2.1) hties)
      (fun hid => (congrArg (·.2.2.1) hties).trans hid)
      fun hl c hc => hl c ((congrArg (·.2.2.2) hties).symm.trans hc)
  exact ⟨h.same.mapStep (fun _ => hl) fun _ => he, h.left.stay (hinward e hf) rfl,
    h.right.stay (hinward e' hf') rfl⟩

theorem Paired.mapWorkflow {f f' : Workflow → Workflow} (hf : ∀ wf, (f wf).ties = wf.ties)
    (hf' : ∀ wf, (f' wf).ties = wf.ties)
    (hl : Workflow.Akin (.untimed σ) (f (e.workflow w)) (f' (e'.workflow w))) :
    Paired m part mine w b b' (e.mapWorkflow w f) (e'.mapWorkflow w f') := by
  have hstay : ∀ {b e : Engine σ} {f : Workflow → Workflow}, Secluded m part mine w b e →
      (∀ wf, (f wf).ties = wf.ties) → Secluded m part mine w b (e.mapWorkflow w f) := by
    intro b e f hk hf
    have hties := hf (e.workflow w)
    refine hk.stay (inward_mapWorkflow (congrArg (·.1) hties) (congrArg (·.2.1) hties)
      (congrArg (·.2.2.2) hties)) ?_
    rw [workflow_mapWorkflow_self _ hk.hasWorkflow]
    exact congrArg (·.2.2.1) hties
  have hlisteners : (f (e.workflow w)).listeners = (e.workflow w).listeners :=
    congrArg (·.2.2.2) (hf (e.workflow w))
  have hlisteners' : (f' (e'.workflow w)).listeners = (e'.workflow w).listeners :=
    congrArg (·.2.2.2) (hf' (e'.workflow w))
  refine ⟨h.same.mapWorkflow h.left.hasWorkflow h.right.hasWorkflow { hl with listeners := ?_ }
    (congrArg (·.2.1) (hf (e.workflow w))), hstay h.left hf, hstay h.right hf'⟩
  rw [hlisteners, hlisteners', h.same.workflow.listeners]

/-- Where nothing of the core changes, and beyond it nothing outside of the precinct. -/
theorem Paired.of_core {e₁ e₁' : Engine σ} (hs : SamePrecinct m part mine w e₁ e₁')
    (hc : e₁.core = e.core) (hb : Contained part w e e₁) (hc' : e₁'.core = e'.core)
    (hb' : Contained part w e' e₁') : Paired m part mine w b b' e₁ e₁' where
  same := hs
  left := h.left.stay (inward_of_core hc hb) (by rw [workflow_of_core hc])
  right := h.right.stay (inward_of_core hc' hb') (by rw [workflow_of_core hc'])

theorem Paired.aside {j j' : Array Logging.Note} {c c' : Clock} (hr : c.reading = e.clock.reading)
    (hr' : c'.reading = e'.clock.reading) :
    Paired m part mine w b b' (e.aside j c) (e'.aside j' c') :=
  h.of_core { h.same with } rfl ⟨rfl, fun _ _ => rfl, fun _ _ => rfl, hr⟩ rfl
    ⟨rfl, fun _ _ => rfl, fun _ _ => rfl, hr'⟩

/-- The workflow goes on to one of its steps. -/
theorem Paired.go (s : StepId) (ht : mine t) :
    Paired m part mine w b b'
      ((e.mapStep t (·.boundTo (e.workflow w))).mapWorkflow w (·.moved s t))
      ((e'.mapStep t (·.boundTo (e'.workflow w))).mapWorkflow w (·.moved s t)) := by
  -- On either side the step is bound first, so that the workflow is on a step of its own.
  have hgone : ∀ {b e : Engine σ}, Secluded m part mine w b e → Secluded m part mine w b
      ((e.mapStep t (·.boundTo (e.workflow w))).mapWorkflow w (·.moved s t)) := by
    intro b e hk
    have hbind : Inward part mine w e (e.mapStep t (·.boundTo (e.workflow w))) :=
      inward_mapStep ht rfl rfl (fun _ => rfl) fun _ _ hc => (Option.some.inj hc).symm
    have hwf := workflow_mapWorkflow_self (e := e.mapStep t (·.boundTo (e.workflow w))) (·.moved s t)
      hk.hasWorkflow
    refine hk.inward (hbind.trans (inward_mapWorkflow rfl rfl rfl)) ?_ ?_
    · rw [hwf]
      exact ht
    · rw [belongs_iff, hwf]
      show (Engine.step _ t).workflowId = _
      rw [step_mapWorkflow, step_mapStep_self _ (hk.hasStep t ht)]
      rfl
  have hw := h.same.workflow
  have hbound : SamePrecinct m part mine w (e.mapStep t (·.boundTo (e.workflow w)))
      (e'.mapStep t (·.boundTo (e'.workflow w))) :=
    h.same.mapStep (fun hm => { h.same.step t hm with
      workflowId := congrArg some hw.id
      context := congrArg some hw.context }) fun hm => h.same.errors t hm
  exact ⟨hbound.mapWorkflow h.left.hasWorkflow h.right.hasWorkflow
    { hw with current := rfl, previous := rfl } rfl, hgone h.left, hgone h.right⟩

end Paired

/-- To have the same precinct is about the workflow and its steps. -/
theorem paired_bond : Bond (.untimed σ) mine w (Paired m part mine w b b') where
  size h := h.same.size
  step h _ hs := h.same.step _ hs
  workflow h := h.same.workflow.akin
  current h := h.left.current
  closed h _ hs := h.left.closed _ hs
  aside h _ _ := h.aside rfl rfl
  now {e e'} h := by
    have hbeyond : (Likeness.untimed σ).beyond e.surroundings e'.surroundings :=
      ⟨h.left.timely, h.right.timely, trivial, Nat.le_refl 0⟩
    exact (Likeness.untimed σ).now hbeyond
  ticked h _ _ := h.aside rfl rfl
  mapStep {e e'} h s hs f f' hf hf' hl := by
    have herrors : (f (e.step s)).errors = (e.step s).errors := congrArg (·.1) (hf _)
    have herrors' : (f' (e'.step s)).errors = (e'.step s).errors := congrArg (·.1) (hf' _)
    refine h.mapStep hs (fun st => congrArg (·.2) (hf st)) (fun st => congrArg (·.2) (hf' st)) hl ?_
    rw [herrors, herrors', h.same.errors s hs]
  mapWorkflow h _ _ := h.mapWorkflow
  go h s _ ht := h.go s ht

theorem takesErrors_paired : TakesErrors mine (Paired m part mine w b b') := by
  intro e e' h s hs text
  refine h.mapStep hs (fun _ => rfl) (fun _ => rfl) { h.same.step s hs with } ?_
  rw [h.same.errors s hs]

end Engine

end ApprovalFlow
