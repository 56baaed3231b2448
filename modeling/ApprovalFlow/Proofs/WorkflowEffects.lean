import ApprovalFlow.Proofs.ManagerContents
import ApprovalFlow.Proofs.Turns

/-!
# What a workflow changes

With quiet hooks a workflow that is advanced or aborted changes itself and its own steps, and its manager's
desk in one of a few ways (`Effect`): it begins to wait and its decision is enlisted, it ends and is filed,
or the desk stays as it is. What is lost on the way is lost because a listener raised.
-/

namespace ApprovalFlow.Engine

open Act

variable {σ γ : Type} {m : ManagerId} {w : WorkflowId} {own : StepId → Prop} {s : StepId}
  {e e' e'' : Engine σ}

/-- If the step is bound, it is in the context of the workflow `w`. -/
def Lodged (w : WorkflowId) (e : Engine σ) (s : StepId) : Prop :=
  ∀ c, (e.step s).context = some c → c = (e.workflow w).context

/-- Only the workflow `w` and its own steps have changed, and nothing that is completed has become
undone. -/
structure Confined (own : StepId → Prop) (w : WorkflowId) (e e' : Engine σ) : Prop where
  others : ∀ v, v ≠ w → e'.workflow v = e.workflow v
  hasWorkflow : ∀ v, e'.HasWorkflow v ↔ e.HasWorkflow v
  hasStep : ∀ s, e'.HasStep s ↔ e.HasStep s
  steps : ∀ s, ¬own s → e'.step s = e.step s
  targets : ∀ s, e'.targets s = e.targets s
  decisions : ∀ s, (e'.step s).isDecision = (e.step s).isDecision
  final : ∀ s, (e.step s).isCompleted = true → (e'.step s).isCompleted = true
  bindings : ∀ s, e.belongs w s = true → e'.belongs w s = true
  lodgings : ∀ s, Lodged w e s → Lodged w e' s
  id : (e'.workflow w).id = (e.workflow w).id
  listeners : (e'.workflow w).listeners = (e.workflow w).listeners

structure Member (own : StepId → Prop) (w : WorkflowId) (e : Engine σ) : Prop where
  hasWorkflow : e.HasWorkflow w
  hasStep : ∀ s, own s → e.HasStep s
  closed : ∀ s, own s → ∀ t ∈ e.targets s, own t
  current : own (e.workflow w).current
  bound : e.belongs w (e.workflow w).current = true

/-- A workflow that stays on its step remains as it should be. -/
theorem Member.stay (hm : Member own w e) (hw : e'.HasWorkflow w ↔ e.HasWorkflow w)
    (hs : ∀ s, e'.HasStep s ↔ e.HasStep s) (ht : ∀ s, e'.targets s = e.targets s)
    (hcur : (e'.workflow w).current = (e.workflow w).current)
    (hb : e.belongs w (e.workflow w).current = true → e'.belongs w (e.workflow w).current = true) :
    Member own w e' where
  hasWorkflow := hw.mpr hm.hasWorkflow
  hasStep s h := (hs s).mpr (hm.hasStep s h)
  closed s h t hst := hm.closed s h t (ht s ▸ hst)
  current := by rw [hcur]; exact hm.current
  bound := by rw [hcur]; exact hb hm.bound

structure Asks (e : Engine σ) (w : WorkflowId) : Prop where
  waiting : (e.workflow w).state = .waiting
  unanswered : (e.step (e.workflow w).current).isCompleted = false

/-- What happens to the desk of `m` while the workflow `w` goes from `e` to `e'`; `silent` if no listener
raises. -/
inductive Effect (silent : Prop) (m : ManagerId) (w : WorkflowId) (e e' : Engine σ) : Prop
  | idle (same : e'.workflow w = e.workflow w)
      (steps : (e'.step (e.workflow w).current).isCompleted =
        (e.step (e.workflow w).current).isCompleted) (desk : e'.desk m = e.desk m)
  | runs (running : (e'.workflow w).state = .running) (desk : e'.desk m = e.desk m)
  | unheard (observed : ¬(e.workflow w).Managed m) (desk : e'.desk m = e.desk m)
  | waits (managed : (e.workflow w).Managed m) (asks : e'.Asks w)
      (decision : (e'.step (e'.workflow w).current).isDecision = true)
      (desk : e'.desk m = (e.desk m).enlisted (e'.workflow w).current)
  | ends (managed : (e.workflow w).Managed m) (live : (e.workflow w).state.isTerminal = false)
      (terminal : (e'.workflow w).state.isTerminal = true)
      (desk : e'.desk m =
        ((e.desk m).keeping fun s => !e'.belongs w s).filed (e.workflow w).id w)
  | lost (managed : (e.workflow w).Managed m) (live : (e.workflow w).state.isTerminal = false)
      (raised : ¬silent) (p : StepId → Bool) (keeps : ∀ s, e'.belongs w s = false → p s = true)
      (desk : e'.desk m = (e.desk m).keeping p)

/-- Only the end of a workflow takes something out of the register. -/
theorem Effect.running {silent : Prop} (h : Effect silent m w e e') :
    (e'.desk m).running = (e.desk m).running ∨
      (e.workflow w).Managed m ∧ (e.workflow w).state.isTerminal = false ∧
        (e'.workflow w).state.isTerminal = true ∧
        (e'.desk m).running = Entries.erase (e.workflow w).id (e.desk m).running := by
  cases h with
  | idle _ _ hd => exact .inl (by rw [hd])
  | runs _ hd => exact .inl (by rw [hd])
  | unheard _ hd => exact .inl (by rw [hd])
  | waits _ _ _ hd => exact .inl (by rw [hd]; rfl)
  | lost _ _ _ _ _ hd => exact .inl (by rw [hd]; rfl)
  | ends hman hlive hover hd => exact .inr ⟨hman, hlive, hover, by rw [hd]; rfl⟩

/-- What is queued was queued before, or the workflow waits for it now. -/
theorem Effect.queued {silent : Prop} (h : Effect silent m w e e') (hs : s ∈ (e'.desk m).queue) :
    s ∈ (e.desk m).queue ∨ s = (e'.workflow w).current ∧ e'.Asks w := by
  cases h with
  | idle _ _ hd => exact .inl (hd ▸ hs)
  | runs _ hd => exact .inl (hd ▸ hs)
  | unheard _ hd => exact .inl (hd ▸ hs)
  | waits _ hasks _ hd =>
    rw [hd, Desk.mem_enlisted] at hs
    exact hs.imp_right fun hs => ⟨hs, hasks⟩
  | ends _ _ _ hd =>
    rw [hd] at hs
    exact .inl (Desk.mem_keeping.mp hs).1
  | lost _ _ _ _ _ hd =>
    rw [hd] at hs
    exact .inl (Desk.mem_keeping.mp hs).1

/-- If no listener raises, only the end of the workflow takes something out of the queue. -/
theorem Effect.still_queued {silent : Prop} (h : Effect silent m w e e') (hsil : silent)
    (hlive : (e'.workflow w).state.isTerminal = false) (hs : s ∈ (e.desk m).queue) :
    s ∈ (e'.desk m).queue := by
  cases h with
  | idle _ _ hd => exact hd ▸ hs
  | runs _ hd => exact hd ▸ hs
  | unheard _ hd => exact hd ▸ hs
  | waits _ _ _ hd =>
    rw [hd, Desk.mem_enlisted]
    exact .inl hs
  | ends _ _ hover _ =>
    rw [hlive] at hover
    contradiction
  | lost _ _ hraised _ _ _ => exact absurd hsil hraised

theorem Effect.nextId {silent : Prop} (h : Effect silent m w e e') :
    (e'.desk m).nextId = (e.desk m).nextId := by
  cases h with
  | idle _ _ hd => rw [hd]
  | runs _ hd => rw [hd]
  | unheard _ hd => rw [hd]
  | waits _ _ _ hd => rw [hd]; rfl
  | lost _ _ _ _ _ hd => rw [hd]; rfl
  | ends _ _ _ hd => rw [hd]; rfl

/-- How the workflow `w` may conduct itself from `e` to `e'`. -/
structure Conduct (silent : Prop) (m : ManagerId) (own : StepId → Prop) (w : WorkflowId)
    (e e' : Engine σ) : Prop where
  confined : Confined own w e e'
  member : Member own w e'
  started : (e'.workflow w).state ≠ .created
  live : (e.workflow w).state.isTerminal = true → e'.workflow w = e.workflow w
  asking : e.Asks w → e'.Asks w ∧ (e'.workflow w).current = (e.workflow w).current ∨
    (e'.workflow w).state.isTerminal = true
  queueId : (e'.manager m).queue = (e.manager m).queue
  hasDesk : e'.HasDesk m
  effect : Effect silent m w e e'

structure Inner (own : StepId → Prop) (w : WorkflowId) (e e' : Engine σ) : Prop
    extends Confined own w e e' where
  queues : e'.queues = e.queues
  managers : e'.managers = e.managers

section Changes

theorem Confined.same (hc : Confined own w e e') (hs : e''.steps = e'.steps)
    (hw : e''.workflows = e'.workflows) : Confined own w e e'' := by
  have hstep := step_of_steps hs
  have hwf := workflow_of_workflows hw
  have hbel : ∀ s, e''.belongs w s = e'.belongs w s := fun s => by
    unfold Engine.belongs
    rw [hstep, hwf]
  exact
    { others := fun v hv => (hwf v).trans (hc.others v hv)
      hasWorkflow := fun v => (hasWorkflow_of_workflows hw v).trans (hc.hasWorkflow v)
      hasStep := fun s => (hasStep_of_steps hs s).trans (hc.hasStep s)
      steps := fun s h => (hstep s).trans (hc.steps s h)
      targets := fun s => (targets_of_successors (by rw [hstep])).trans (hc.targets s)
      decisions := fun s => by rw [hstep]; exact hc.decisions s
      final := fun s h => by rw [hstep]; exact hc.final s h
      bindings := fun s h => by rw [hbel]; exact hc.bindings s h
      lodgings := fun s h => by unfold Lodged; rw [hstep, hwf]; exact hc.lodgings s h
      id := by rw [hwf]; exact hc.id
      listeners := by rw [hwf]; exact hc.listeners }

theorem Member.same (hm : Member own w e') (hs : e''.steps = e'.steps)
    (hw : e''.workflows = e'.workflows) : Member own w e'' := by
  have hstep := step_of_steps hs
  have hwf := workflow_of_workflows hw w
  refine hm.stay (hasWorkflow_of_workflows hw w) (hasStep_of_steps hs)
    (fun s => targets_of_successors (by rw [hstep])) (by rw [hwf]) fun hb => ?_
  unfold Engine.belongs at hb ⊢
  rwa [hstep, hwf]

theorem Inner.trans (h : Inner own w e e') (h' : Inner own w e' e'') : Inner own w e e'' where
  others v hv := (h'.others v hv).trans (h.others v hv)
  hasWorkflow v := (h'.hasWorkflow v).trans (h.hasWorkflow v)
  hasStep s := (h'.hasStep s).trans (h.hasStep s)
  steps s hs := (h'.steps s hs).trans (h.steps s hs)
  targets s := (h'.targets s).trans (h.targets s)
  decisions s := (h'.decisions s).trans (h.decisions s)
  final s hs := h'.final s (h.final s hs)
  bindings s hs := h'.bindings s (h.bindings s hs)
  lodgings s hs := h'.lodgings s (h.lodgings s hs)
  id := h'.id.trans h.id
  listeners := h'.listeners.trans h.listeners
  queues := h'.queues.trans h.queues
  managers := h'.managers.trans h.managers

theorem inner_refl (e : Engine σ) : Inner own w e e where
  others _ _ := rfl
  hasWorkflow _ := Iff.rfl
  hasStep _ := Iff.rfl
  steps _ _ := rfl
  targets _ := rfl
  decisions _ := rfl
  final _ h := h
  bindings _ h := h
  lodgings _ h := h
  id := rfl
  listeners := rfl
  queues := rfl
  managers := rfl

theorem inner_of_core (hc : e'.core = e.core) : Inner own w e e' where
  toConfined := (inner_refl e).toConfined.same (congrArg Core.steps hc) (congrArg Core.workflows hc)
  queues := congrArg Core.queues hc
  managers := congrArg Core.managers hc

/-- A change of one's own step that keeps its successors, its kind and its bindings. -/
theorem inner_mapStep (hs : own s) (f : Step → Step)
    (hsucc : (f (e.step s)).successors = (e.step s).successors)
    (hdec : (f (e.step s)).isDecision = (e.step s).isDecision)
    (hfin : (e.step s).isCompleted = true → (f (e.step s)).isCompleted = true)
    (hid : (e.step s).workflowId = some (e.workflow w).id →
      (f (e.step s)).workflowId = some (e.workflow w).id)
    (hctx : Lodged w e s → ∀ c, (f (e.step s)).context = some c → c = (e.workflow w).context) :
    Inner own w e (e.mapStep s f) := by
  refine
    { others := fun _ _ => rfl
      hasWorkflow := fun _ => Iff.rfl
      hasStep := fun t => hasStep_mapStep e s t f
      steps := fun t ht => step_mapStep_of_ne t f fun h => ht (h ▸ hs)
      targets := fun t => targets_of_successors (step_mapStep_eq hsucc t)
      decisions := step_mapStep_eq hdec
      final := fun t => step_mapStep_keeps (p := (·.isCompleted = true)) hfin
      bindings := fun t ht => ?_
      lodgings := fun t => step_mapStep_keeps
        (p := fun st => ∀ c, st.context = some c → c = (e.workflow w).context) hctx
      id := rfl
      listeners := rfl
      queues := rfl
      managers := rfl }
  unfold Engine.belongs at ht ⊢
  rw [beq_iff_eq] at ht ⊢
  exact step_mapStep_keeps (p := (·.workflowId = some (e.workflow w).id)) hid ht

theorem inner_of_worked {seen : σ → List StepId} (hs : own s) (hw : Worked seen s e e') :
    Inner own w e e' where
  others v _ := hw.workflow v
  hasWorkflow := hw.hasWorkflow
  hasStep := hw.hasStep
  steps t ht := hw.others t fun h => ht (h ▸ hs)
  targets := hw.targets
  decisions t := Step.isDecision_of_frame (hw.frame t)
  final t ht := by
    by_cases hts : t = s
    · rw [hts] at ht ⊢; exact (hw.self.final ht).1
    · rw [hw.others t hts]; exact ht
  bindings t ht := by
    unfold Engine.belongs at ht ⊢
    rw [Step.workflowId_of_frame (hw.frame t), hw.workflow]
    exact ht
  lodgings t hl := by
    unfold Lodged
    rw [Step.context_of_frame (hw.frame t), hw.workflow]
    exact hl
  id := by rw [hw.workflow]
  listeners := by rw [hw.workflow]
  queues := hw.queues
  managers := hw.managers

theorem inner_mapWorkflow {f : Workflow → Workflow} (hid : (f (e.workflow w)).id = (e.workflow w).id)
    (hctx : (f (e.workflow w)).context = (e.workflow w).context)
    (hls : (f (e.workflow w)).listeners = (e.workflow w).listeners) :
    Inner own w e (e.mapWorkflow w f) := by
  have hsame : ((e.mapWorkflow w f).workflow w).id = (e.workflow w).id := workflow_mapWorkflow_eq hid w
  refine
    { others := fun v hv => workflow_mapWorkflow_of_ne v f hv
      hasWorkflow := fun v => hasWorkflow_mapWorkflow e w v f
      hasStep := fun _ => Iff.rfl
      steps := fun _ _ => rfl
      targets := fun _ => rfl
      decisions := fun _ => rfl
      final := fun _ h => h
      bindings := fun t ht => ?_
      lodgings := fun t hl => ?_
      id := hsame
      listeners := workflow_mapWorkflow_eq hls w
      queues := rfl
      managers := rfl }
  · unfold Engine.belongs at ht ⊢
    rw [hsame]
    exact ht
  · unfold Lodged
    rw [workflow_mapWorkflow_eq (g := Workflow.context) hctx]
    exact hl

theorem Member.inner (hm : Member own w e) (hi : Confined own w e e')
    (hcur : (e'.workflow w).current = (e.workflow w).current) : Member own w e' :=
  hm.stay (hi.hasWorkflow w) hi.hasStep hi.targets hcur (hi.bindings _)

theorem Inner.desk (hi : Inner own w e e') (m : ManagerId) : e'.desk m = e.desk m := by
  unfold Engine.desk Engine.manager Engine.queue
  rw [hi.managers, hi.queues]

theorem Inner.manager (hi : Inner own w e e') (m : ManagerId) : e'.manager m = e.manager m :=
  manager_of_managers hi.managers m

theorem Inner.hasDesk (hi : Inner own w e e') (hd : e.HasDesk m) : e'.HasDesk m :=
  hd.same hi.managers hi.queues

end Changes

/-- What a manager's desk has to be like for the workflow `w` to be driven: a workflow to which the manager
listens, and which is not over, is registered, and the queue holds decisions. -/
structure Ready (m : ManagerId) (own : StepId → Prop) (w : WorkflowId) (e : Engine σ) : Prop where
  member : Member own w e
  hasDesk : e.HasDesk m
  listens : (e.workflow w).Observed ∨ (e.workflow w).Managed m
  registered : (e.workflow w).Managed m → (e.workflow w).state.isTerminal = false →
    running? e m (e.workflow w).id = some w
  decisions : ∀ s ∈ (e.desk m).queue, (e.step s).isDecision = true

theorem managed_of_listeners {wf wf' : Workflow} (h : wf'.listeners = wf.listeners) :
    wf'.Managed m ↔ wf.Managed m := by
  unfold Workflow.Managed
  rw [h]

section Driving

variable {h : Hooks σ γ} (hr : Ready m own w e) (hlive : (e.workflow w).state.isTerminal = false)
include hr

/-- Nothing happens. -/
theorem Ready.conduct_rfl (hs : (e.workflow w).state ≠ .created) : Conduct h.Silent m own w e e where
  confined := (inner_refl e).toConfined
  member := hr.member
  started := hs
  live _ := rfl
  asking ha := .inl ⟨ha, rfl⟩
  queueId := rfl
  hasDesk := hr.hasDesk
  effect := .idle rfl rfl rfl

include hlive

/-- The workflow is running, and nobody has been told anything that matters. -/
theorem Ready.conduct_runs (hask : ¬e.Asks w) (hi : Inner own w e e') (hm : Member own w e')
    (hs : (e'.workflow w).state = .running) : Conduct h.Silent m own w e e' where
  confined := hi.toConfined
  member := hm
  started := by rw [hs]; exact nofun
  live ht := by rw [hlive] at ht; contradiction
  asking ha := absurd ha hask
  queueId := by rw [hi.manager]
  hasDesk := hi.hasDesk hr.hasDesk
  effect := .runs hs (hi.desk m)

theorem Ready.registered_inner (hi : Inner own w e e') (hm : (e.workflow w).Managed m) :
    running? e' m (e'.workflow w).id = some w := by
  unfold running?
  rw [hi.manager, hi.id]
  exact hr.registered hm hlive

/-- Telling listeners leaves the workflow as it is; what becomes of the desk is up to the manager. -/
theorem Ready.conduct_emit (hq : h.Quiet) {e₁ : Engine σ} (hi : Inner own w e e₁) (hm : Member own w e₁)
    (hs : (e₁.workflow w).state ≠ .created)
    (hask : e.Asks w → (e₁.workflow w).state.isTerminal = true) {kind : EventKind}
    (htold : (e.workflow w).Managed m →
      (emit h w kind).Ends e₁ (fun _ e' => ∃ d, Files m d e₁ e' ∧ Effect h.Silent m w e e')
        (fun _ e' => ∃ d, Files m d e₁ e' ∧ Effect h.Silent m w e e')) :
    (emit h w kind).Ends e₁ (fun _ => Conduct h.Silent m own w e)
      (fun _ => Conduct h.Silent m own w e) := by
  -- Whatever the listeners do, only the desk is changed.
  have conduct : ∀ {e' : Engine σ}, (∃ d, Files m d e₁ e' ∧ Effect h.Silent m w e e') →
      Conduct h.Silent m own w e e' := by
    rintro e' ⟨d, hf, heff⟩
    exact
      { confined := hi.toConfined.same hf.steps hf.workflows
        member := hm.same hf.steps hf.workflows
        started := by rw [hf.workflow]; exact hs
        live := fun ht => by rw [hlive] at ht; contradiction
        asking := fun ha => .inr (by rw [hf.workflow]; exact hask ha)
        queueId := by rw [hf.queueId, hi.manager]
        hasDesk := hf.hasDesk
        effect := heff }
  rcases hr.listens with ho | hman
  · have ho₁ : (e₁.workflow w).Observed := by
      unfold Workflow.Observed
      rw [hi.listeners]
      exact ho
    have hend : ∀ {e' : Engine σ}, e'.core = e₁.core → Conduct h.Silent m own w e e' := by
      intro e' hc
      have hf := files_of_core (hi.hasDesk hr.hasDesk) hc
      exact conduct ⟨_, hf, .unheard ho.not_managed (hf.desk.trans (hi.desk m))⟩
    exact (emit_observed hq ho₁ _).mono (fun _ _ hc => hend hc) fun _ _ hc => hend hc.1
  · exact (htold hman).mono (fun _ _ he => conduct he) fun _ _ he => conduct he

/-- The workflow begins to wait, and its listeners are told. -/
theorem Ready.conduct_waiting (hq : h.Quiet) (hask : ¬e.Asks w) {e₁ : Engine σ} (hi : Inner own w e e₁)
    (hm : Member own w e₁) (ha : e₁.Asks w)
    (hd : (e₁.step (e₁.workflow w).current).isDecision = true) (n : Nat) :
    (emit h w (.waiting n)).Ends e₁ (fun _ => Conduct h.Silent m own w e)
      (fun _ => Conduct h.Silent m own w e) := by
  have hst : (e₁.workflow w).state.isTerminal = false := by rw [ha.waiting]; rfl
  refine hr.conduct_emit hlive hq hi hm (by rw [ha.waiting]; exact nofun) (fun h => absurd h hask)
    fun hman => ?_
  have hman₁ := (managed_of_listeners hi.listeners).mpr hman
  have hreg := hr.registered_inner hlive hi hman
  have henlisted : ∀ {e' : Engine σ},
      Files m ((e₁.desk m).enlisted (e₁.workflow w).current) e₁ e' → Effect h.Silent m w e e' := by
    intro e' hf
    refine .waits hman ⟨?_, ?_⟩ ?_ ?_
    · rw [hf.workflow]; exact ha.waiting
    · rw [hf.workflow, hf.step]; exact ha.unanswered
    · rw [hf.workflow, hf.step]; exact hd
    · rw [hf.workflow, hf.desk, hi.desk]
  refine (emit_waiting hq hman₁ (hi.hasDesk hr.hasDesk) hreg hst hd n).mono
    (fun _ _ hf => ⟨_, hf, henlisted hf⟩) ?_
  rintro _ e' ⟨hsil, hf | hf⟩
  · -- A listener has raised before the manager was told.
    refine ⟨_, hf, .lost hman hlive hsil (fun _ => true) (fun _ _ => rfl) ?_⟩
    rw [Desk.keeping_eq_self fun _ _ => rfl, hf.desk, hi.desk]
  · exact ⟨_, hf, henlisted hf⟩

/-- The workflow is over, and its listeners are told. -/
theorem Ready.conduct_over (hq : h.Quiet) {e₁ : Engine σ} (hi : Inner own w e e₁)
    (hm : Member own w e₁) (ht : (e₁.workflow w).state.isTerminal = true) {kind : EventKind}
    (hk : (∃ o, kind = .completed o) ∨ ∃ o, kind = .aborted o) :
    (emit h w kind).Ends e₁ (fun _ => Conduct h.Silent m own w e)
      (fun _ => Conduct h.Silent m own w e) := by
  refine hr.conduct_emit hlive hq hi hm (fun hs => ?_) (fun _ => ht) fun hman => ?_
  · rw [hs] at ht
    contradiction
  have hman₁ := (managed_of_listeners hi.listeners).mpr hman
  have hreg := hr.registered_inner hlive hi hman
  have hdec : ∀ s ∈ (e₁.desk m).queue, (e₁.step s).isDecision = true := by
    intro s hs
    rw [hi.decisions]
    exact hr.decisions s (hi.desk m ▸ hs)
  refine (emit_over hq hman₁ (hi.hasDesk hr.hasDesk) hreg hdec hk).mono ?_ ?_
  · intro _ e' hf
    refine ⟨_, hf, .ends hman hlive (by rw [hf.workflow]; exact ht) ?_⟩
    rw [hf.belongs, hf.desk, hi.desk, hi.id]
  · rintro _ e' ⟨hsil, p, hp, hf⟩
    refine ⟨_, hf, .lost hman hlive hsil p (fun s hs => hp s (hf.belongs w ▸ hs)) ?_⟩
    rw [hf.desk, hi.desk]

/-- On an unanswered decision the workflow begins to wait, and its listeners are told. -/
theorem Ready.turn_waits (hq : h.Quiet) (hask : ¬e.Asks w) {e₁ : Engine σ} (hi : Inner own w e e₁)
    (hm : Member own w e₁) (hc : (e₁.step (e₁.workflow w).current).isCompleted = false)
    (hd : (e₁.step (e₁.workflow w).current).isDecision = true)
    (he : e'.Alike (e₁.mapWorkflow w ({ · with state := .waiting }))) (n : Nat) :
    (emit h w (.waiting n)).Ends e' (fun _ => Conduct h.Silent m own w e)
      (fun _ => Conduct h.Silent m own w e) := by
  have hi₁ : Inner own w e₁ (e₁.mapWorkflow w ({ · with state := .waiting })) :=
    inner_mapWorkflow rfl rfl rfl
  have hi' : Inner own w e₁ e' := hi₁.trans (inner_of_core he.core)
  have hwf : e'.workflow w = { e₁.workflow w with state := .waiting } := by
    rw [workflow_of_core he.core, workflow_mapWorkflow_self _ hm.hasWorkflow]
  have hstep := step_of_core he.core (e₁.workflow w).current
  refine hr.conduct_waiting hlive hq hask (hi.trans hi') (hm.inner hi'.toConfined ?_) ⟨?_, ?_⟩ ?_ _
  · rw [hwf]
  · rw [hwf]
  · rw [hwf, hstep]; exact hc
  · rw [hwf, hstep]; exact hd

/-- With its last step the workflow ends, and its listeners are told. -/
theorem Ready.turn_over (hq : h.Quiet) {e₁ : Engine σ} (hi : Inner own w e e₁) (hm : Member own w e₁)
    {t : Instant} {state : WorkflowState} {kind : EventKind}
    (hcl : (e₁.step (e₁.workflow w).current).Closes state kind)
    (he : e'.Alike (e₁.mapWorkflow w fun wf => (wf.left (e₁.workflow w).current).ended state t)) :
    (emit h w kind).Ends e' (fun _ => Conduct h.Silent m own w e)
      (fun _ => Conduct h.Silent m own w e) := by
  have hi₁ : Inner own w e₁ (e₁.mapWorkflow w fun wf =>
      (wf.left (e₁.workflow w).current).ended state t) := inner_mapWorkflow rfl rfl rfl
  have hi' : Inner own w e₁ e' := hi₁.trans (inner_of_core he.core)
  have hwf : e'.workflow w = ((e₁.workflow w).left (e₁.workflow w).current).ended state t := by
    rw [workflow_of_core he.core, workflow_mapWorkflow_self _ hm.hasWorkflow]
  have hm' : Member own w e' := hm.inner hi'.toConfined (by rw [hwf]; rfl)
  cases hcl with
  | abort _ => exact hr.conduct_over hlive hq (hi.trans hi') hm' (by rw [hwf]; rfl) (.inr ⟨_, rfl⟩)
  | complete _ _ => exact hr.conduct_over hlive hq (hi.trans hi') hm' (by rw [hwf]; rfl) (.inl ⟨_, rfl⟩)

omit hr hlive in
/-- A workflow that goes on keeps to its own steps, and has bound the one that it is on. -/
theorem Member.goes_on {t : StepId} (hm : Member own w e)
    (ht : t ∈ e.targets (e.workflow w).current) (hs : (e.workflow w).state = .running)
    (he : e'.Alike ((e.mapStep t (·.boundTo (e.workflow w))).mapWorkflow w fun wf =>
      (wf.left (e.workflow w).current).moved (e.workflow w).current t)) :
    Inner own w e e' ∧ Member own w e' ∧ (e'.workflow w).state = .running := by
  have hown : own t := hm.closed _ hm.current t ht
  let e₁ := e.mapStep t (·.boundTo (e.workflow w))
  have hi₁ : Inner own w e e₁ := inner_mapStep hown _ rfl rfl id (fun _ => rfl)
    fun _ _ hc => (Option.some.inj hc).symm
  have hi₂ : Inner own w e₁ (e₁.mapWorkflow w fun wf =>
      (wf.left (e.workflow w).current).moved (e.workflow w).current t) := inner_mapWorkflow rfl rfl rfl
  have hi' : Inner own w e e' := hi₁.trans (hi₂.trans (inner_of_core he.core))
  have hwf := workflow_of_follows he hm.hasWorkflow
  refine ⟨hi', ⟨hasWorkflow_of_follows he hm.hasWorkflow, ?_, ?_, ?_, ?_⟩, by rw [hwf]; exact hs⟩
  · exact fun s hs => (hi'.hasStep s).mpr (hm.hasStep s hs)
  · exact fun s hs x hx => hm.closed s hs x (hi'.targets s ▸ hx)
  · rw [hwf]; exact hown
  · rw [hwf]
    unfold Engine.belongs
    rw [hwf]
    show ((e'.step t).workflowId == _) = true
    rw [step_of_follows_self he (hm.hasStep t hown)]
    exact beq_self_eq_true _

/-- However a turn ends, the workflow has conducted itself or is running still. -/
theorem Ready.turnEnds (hq : h.Quiet) (hask : ¬e.Asks w) {e₁ : Engine σ} (hi : Inner own w e e₁)
    (hm : Member own w e₁) (hs : (e₁.workflow w).state = .running) :
    TurnEnds h w (e₁.workflow w).current e₁
      (after (fun _ => Conduct h.Silent m own w e) fun e₂ =>
        Inner own w e e₂ ∧ Member own w e₂ ∧ (e₂.workflow w).state = .running)
      (fun _ => Conduct h.Silent m own w e) := by
  -- A step that is left behind without going on from it leaves the workflow on it.
  have hleft : Conduct h.Silent m own w e (e₁.mapWorkflow w (·.left (e₁.workflow w).current)) := by
    have hi₂ : Inner own w e₁ (e₁.mapWorkflow w (·.left (e₁.workflow w).current)) :=
      inner_mapWorkflow rfl rfl rfl
    have hwf := workflow_mapWorkflow_self (·.left (e₁.workflow w).current) hm.hasWorkflow
    refine hr.conduct_runs hlive hask (hi.trans hi₂) (hm.inner hi₂.toConfined ?_) ?_
    · rw [hwf]; rfl
    · rw [hwf]; exact hs
  -- Wherever the traversal fails or is broken off, the workflow is running.
  have hrun := hr.conduct_runs (h := h) hlive hask hi hm hs
  exact
    { failed := fun _ => hrun
      again := fun _ _ => hrun
      waits := fun hc hd _ he _ => hr.turn_waits hlive hq hask hi hm hc hd he _
      ends := fun _ _ _ hcl _ he _ => hr.turn_over hlive hq hi hm hcl he
      blocked := fun _ _ _ _ => hleft
      unbound := fun _ _ _ _ _ => hleft
      follows := fun _ _ _ ht _ _ he _ =>
        (hm.goes_on (mem_targets_of_next? ht) hs he).imp_left hi.trans }

omit hlive in
/-- A workflow that is advanced conducts itself. -/
theorem Ready.conduct_advance (hq : h.Quiet) (context : γ) :
    (advance h w context).Ends e (fun _ => Conduct h.Silent m own w e)
      (fun _ => Conduct h.Silent m own w e) := by
  have hm := hr.member
  by_cases hask : e.Asks w
  · -- A workflow that waits for an answer is left as it is.
    have hidle := hr.conduct_rfl (h := h) (by rw [hask.waiting]; exact nofun)
    unfold advance
    simp only [ends_bind, ends_get, ends_failIf, hask.waiting, hask.unanswered]
    exact hidle
  cases hlive : (e.workflow w).state.isTerminal
  case true =>
    have hidle := hr.conduct_rfl (h := h) fun hs => by rw [hs] at hlive; contradiction
    unfold advance
    simp only [ends_bind, ends_get, ends_failIf, hlive, if_true]
    exact hidle
  refine advance_ends (P := fun e₂ =>
    Inner own w e e₂ ∧ Member own w e₂ ∧ (e₂.workflow w).state = .running) hq h.logs_nil
    (fun ht => ?_) (fun hw hc => absurd ⟨hw, hc⟩ hask) (fun hs => ⟨inner_refl e, hm, hs⟩) ?_
    (fun e₂ he => ⟨he.2.2, he.2.1.hasWorkflow⟩) ?_
  · rw [hlive] at ht
    contradiction
  · intro _ t e₁ hc _
    have hi : Inner own w e (e.mapWorkflow w (·.resumed t)) := inner_mapWorkflow rfl rfl rfl
    have hi' : Inner own w e e₁ := hi.trans (inner_of_core hc)
    have hwf : e₁.workflow w = (e.workflow w).resumed t := by
      rw [workflow_of_core hc, workflow_mapWorkflow_self _ hm.hasWorkflow]
    refine ⟨hi', hm.inner hi'.toConfined ?_, ?_⟩
    · rw [hwf]; rfl
    · rw [hwf]; rfl
  · rintro e₂ ⟨hi, hm₂, hs⟩ e₁ hw
    have hi₁ : Inner own w e₂ e₁ := inner_of_worked hm₂.current hw
    have hcur : e₁.workflow w = e₂.workflow w := hw.workflow w
    rw [← hcur]
    exact hr.turnEnds hlive hq hask (hi.trans hi₁) (hm₂.inner hi₁.toConfined (by rw [hcur]))
      (by rw [hcur]; exact hs)

omit hlive in
/-- A workflow that is aborted conducts itself. -/
theorem Ready.conduct_abort (hq : h.Quiet) :
    (abort h w).Ends e (fun _ => Conduct h.Silent m own w e)
      (fun _ => Conduct h.Silent m own w e) := by
  have hm := hr.member
  refine abort_ends (fun _ => []) (hm.hasStep _ hm.current) (fun ht _ => ?_) ?_
  · exact hr.conduct_rfl fun hs => by rw [hs] at ht; contradiction
  intro hlive e₁ hw _ hc t e' he
  have hi₁ : Inner own w e e₁ := inner_of_worked hm.current hw
  have hi₂ : Inner own w e₁ (e₁.mapWorkflow w (·.aborted t)) :=
    inner_mapWorkflow (Workflow.id_aborted _ t) (Workflow.context_aborted _ t)
      (Workflow.listeners_aborted _ t)
  have hi' : Inner own w e e' := hi₁.trans (hi₂.trans (inner_of_core he.core))
  have hwf : e'.workflow w = (e₁.workflow w).aborted t := by
    rw [workflow_of_core he.core,
      workflow_mapWorkflow_self _ ((hi₁.hasWorkflow w).mpr hm.hasWorkflow)]
  refine hr.conduct_over hlive hq hi' (hm.inner hi'.toConfined ?_) ?_ (.inr ⟨_, rfl⟩)
  · rw [hwf, Workflow.current_aborted, hw.workflow w]
  · rw [hwf, Workflow.state_aborted]
    rfl

end Driving

end ApprovalFlow.Engine
