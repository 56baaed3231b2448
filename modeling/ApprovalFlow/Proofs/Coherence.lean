import ApprovalFlow.Engine.Management
import ApprovalFlow.Proofs.DrivingInvariants

/-!
# Coherence

In a coherent engine whatever is referred to is there, each manager has a queue of its own, queues hold
decisions alone, and a workflow that a manager lists as running has begun, has the id under which it is
listed and is listened to by that manager. Workflows abide: once begun a workflow keeps its id and the
managers that listen to it, and once over it keeps its state. Driving and aborting workflows upholds all
this, whatever the hooks do that uphold it themselves.
-/

namespace ApprovalFlow

open Act

variable {σ γ α : Type}

/-- The workflow keeps its state once it is over, its id once it has begun, and the managers that listen
to it. -/
structure Workflow.Abides (a b : Workflow) : Prop where
  ended : a.state.isTerminal = true → b.state = a.state
  begun : a.state ≠ .created → b.state ≠ .created ∧ b.id = a.id
  managers : ∀ m, .manager m ∈ a.listeners → .manager m ∈ b.listeners

namespace Workflow

variable {a b : Workflow}

theorem abides_refl (a : Workflow) : Abides a a := ⟨fun _ => rfl, fun h => ⟨h, rfl⟩, fun _ h => h⟩

instance : IsPreorder Workflow Abides where
  refl := abides_refl
  trans _ _ _ h h' :=
    { ended := fun ha => (h'.ended (h.ended ha ▸ ha)).trans (h.ended ha)
      begun := fun ha =>
        have hb := h.begun ha
        have hc := h'.begun hb.1
        ⟨hc.1, hc.2.trans hb.2⟩
      managers := fun m hm => h'.managers m (h.managers m hm) }

/-- Nothing but the state and the id of a workflow, and who listens to it, has to abide. -/
theorem abides_of_same (hs : b.state = a.state) (hi : b.id = a.id) (hl : b.listeners = a.listeners) :
    Abides a b := by
  constructor
  · intro _
    exact hs
  · intro ha
    exact ⟨hs ▸ ha, hi⟩
  · intro m hm
    rw [hl]
    exact hm

/-- A workflow that may move to a state is not over, and never moves back to its beginning. -/
theorem abides_of_allows {next : WorkflowState} (ha : a.state.allows next = true)
    (hs : b.state = next) (hi : b.id = a.id) (hl : b.listeners = a.listeners) : Abides a b := by
  constructor
  · intro hover
    rw [WorkflowState.live_of_allows ha] at hover
    contradiction
  · intro _
    refine ⟨?_, hi⟩
    rw [hs]
    rintro rfl
    cases hst : a.state <;> rw [hst] at ha <;> contradiction
  · intro m hm
    rw [hl]
    exact hm

/-- Before it begins a workflow may still change its state and its id. -/
theorem abides_of_created (hc : a.state = .created)
    (hm : ∀ m, .manager m ∈ a.listeners → .manager m ∈ b.listeners) : Abides a b := by
  constructor
  · intro hover
    rw [hc] at hover
    contradiction
  · intro hbegun
    exact absurd hc hbegun
  · exact hm

end Workflow

namespace Engine

variable {e e' e'' : Engine σ} {h : Hooks σ γ} {w v : WorkflowId} {s t : StepId} {m : ManagerId}
  {q : QueueId} {id : Int} {context : γ}

structure Registered (m : ManagerId) (id : Int) (w : WorkflowId) (e : Engine σ) : Prop where
  hasWorkflow : e.HasWorkflow w
  id : (e.workflow w).id = id
  listens : .manager m ∈ (e.workflow w).listeners
  begun : (e.workflow w).state ≠ .created

/-- Whatever is referred to is there, and what managers and queues list is listed properly. -/
structure Coherent (e : Engine σ) : Prop where
  current : ∀ w, e.HasWorkflow w → e.HasStep (e.workflow w).current
  targets : ∀ s, ∀ t ∈ e.targets s, e.HasStep t
  hasQueue : ∀ m, e.HasManager m → e.HasQueue (e.manager m).queue
  ownQueue : ∀ m n, e.HasManager m → e.HasManager n →
    (e.manager m).queue = (e.manager n).queue → m = n
  decisions : ∀ q, ∀ s ∈ (e.queue q).decisions, (e.step s).isDecision = true
  keys : ∀ m, (Entries.keys (e.manager m).running).Nodup
  registered : ∀ m id w, running? e m id = some w → e.Registered m id w

structure Intact (e e' : Engine σ) : Prop where
  coherent : Coherent e'
  hasStep : ∀ s, e.HasStep s → e'.HasStep s
  hasWorkflow : ∀ w, e.HasWorkflow w → e'.HasWorkflow w
  abides : ∀ w, (e.workflow w).Abides (e'.workflow w)

def Upholds (e e' : Engine σ) : Prop := Coherent e → Intact e e'

theorem Coherent.intact (hc : Coherent e) : Intact e e :=
  ⟨hc, fun _ hs => hs, fun _ hw => hw, fun w => Workflow.abides_refl (e.workflow w)⟩

theorem Intact.trans (h : Intact e e') (h' : Intact e' e'') : Intact e e'' where
  coherent := h'.coherent
  hasStep s hs := h'.hasStep s (h.hasStep s hs)
  hasWorkflow w hw := h'.hasWorkflow w (h.hasWorkflow w hw)
  abides w := IsTrans.trans _ _ _ (h.abides w) (h'.abides w)

instance : IsPreorder (Engine σ) Upholds where
  refl _ hc := hc.intact
  trans _ _ _ h h' hc := (h hc).trans (h' (h hc).coherent)

/-- Of what upholds the engine no more is asked than of a coherent one. -/
theorem ends_upholds {m : Act σ α}
    (hm : Coherent e → m.Ends e (fun _ => Upholds e) (fun _ => Upholds e)) :
    m.Ends e (fun _ => Upholds e) (fun _ => Upholds e) := by
  by_cases hc : Coherent e
  · exact hm hc
  · exact (ends_run m e).mono (fun _ _ _ hc' => absurd hc' hc) fun _ _ _ hc' => absurd hc' hc

theorem Registered.mono (hr : e.Registered m id w) (hw : e.HasWorkflow w → e'.HasWorkflow w)
    (ha : (e.workflow w).Abides (e'.workflow w)) : e'.Registered m id w where
  hasWorkflow := hw hr.hasWorkflow
  id := (ha.begun hr.begun).2.trans hr.id
  listens := ha.managers m hr.listens
  begun := (ha.begun hr.begun).1

/-! ## Elementary changes -/

/-- Where managers and queues have not changed, what is asked of steps and workflows is asked again. -/
theorem Coherent.of_desks (hc : Coherent e) (hq : e'.queues = e.queues) (hm : e'.managers = e.managers)
    (hw : ∀ w, e.HasWorkflow w → e'.HasWorkflow w) (ha : ∀ w, (e.workflow w).Abides (e'.workflow w))
    (hcur : ∀ w, e'.HasWorkflow w → e'.HasStep (e'.workflow w).current)
    (ht : ∀ s, ∀ t ∈ e'.targets s, e'.HasStep t)
    (hd : ∀ s, (e.step s).isDecision = true → (e'.step s).isDecision = true) : Coherent e' where
  current := hcur
  targets := ht
  hasQueue m hm' := by
    rw [manager_of_managers hm, hasQueue_of_queues hq]
    exact hc.hasQueue m ((hasManager_of_managers hm m).mp hm')
  ownQueue m n hm' hn' hmn := by
    rw [manager_of_managers hm, manager_of_managers hm] at hmn
    rw [hasManager_of_managers hm] at hm' hn'
    exact hc.ownQueue m n hm' hn' hmn
  decisions q s hs' := by
    rw [queue_of_queues hq] at hs'
    exact hd s (hc.decisions q s hs')
  keys m := by
    rw [manager_of_managers hm]
    exact hc.keys m
  registered m id w hr := by
    unfold running? at hr
    rw [manager_of_managers hm] at hr
    exact (hc.registered m id w hr).mono (hw w) (ha w)

/-- Only steps have changed. -/
theorem Coherent.of_steps (hc : Coherent e) (hw : e'.workflows = e.workflows) (hq : e'.queues = e.queues)
    (hm : e'.managers = e.managers) (hs : ∀ s, e.HasStep s → e'.HasStep s)
    (ht : ∀ s, ∀ t ∈ e'.targets s, e'.HasStep t)
    (hd : ∀ s, (e.step s).isDecision = true → (e'.step s).isDecision = true) : Coherent e' := by
  refine hc.of_desks hq hm (fun w => (hasWorkflow_of_workflows hw w).mpr) (fun w => ?_) (fun w hw' => ?_) ht hd
  · rw [workflow_of_workflows hw]
    exact Workflow.abides_refl _
  · rw [workflow_of_workflows hw]
    exact hs _ (hc.current w ((hasWorkflow_of_workflows hw w).mp hw'))

theorem Coherent.targets_of_steps (hc : Coherent e) (hs : e'.steps = e.steps) (s : StepId) :
    ∀ t ∈ e'.targets s, e'.HasStep t := by
  intro t ht
  rw [targets_of_successors (congrArg Step.successors (step_of_steps hs s))] at ht
  exact (hasStep_of_steps hs t).mpr (hc.targets s t ht)

/-- Where no workflow has changed, it is enough that the engine is coherent and its steps are there. -/
theorem Coherent.intact_of_workflows (hc : Coherent e') (hs : ∀ s, e.HasStep s → e'.HasStep s)
    (hw : e'.workflows = e.workflows) : Intact e e' where
  coherent := hc
  hasStep := hs
  hasWorkflow w := (hasWorkflow_of_workflows hw w).mpr
  abides w := by
    rw [workflow_of_workflows hw]
    exact Workflow.abides_refl _

theorem upholds_of_core (hcore : e'.core = e.core) : Upholds e e' := by
  intro hc
  have hs : ∀ s, e.HasStep s → e'.HasStep s := fun s => (hasStep_of_core hcore s).mpr
  have hsteps : e'.steps = e.steps := congrArg Core.steps hcore
  refine Coherent.intact_of_workflows (hc.of_steps (congrArg Core.workflows hcore)
    (congrArg Core.queues hcore) (congrArg Core.managers hcore) hs (hc.targets_of_steps hsteps) ?_) hs
    (congrArg Core.workflows hcore)
  intro s hd
  rw [step_of_core hcore]
  exact hd

theorem upholds_aside (e : Engine σ) (j : Array Logging.Note) (c : Clock) : Upholds e (e.aside j c) :=
  upholds_of_core rfl

/-- A step may change as long as it stays a decision and leads only to steps that are there. -/
theorem upholds_mapStep {f : Step → Step}
    (hf : ∀ x ∈ (f (e.step s)).successors, ∀ t ∈ x.target, t ∈ e.targets s ∨ e.HasStep t)
    (hd : (e.step s).isDecision = true → (f (e.step s)).isDecision = true) :
    Upholds e (e.mapStep s f) := by
  intro hc
  have hs : ∀ t, e.HasStep t → (e.mapStep s f).HasStep t := fun t => (hasStep_mapStep e s t f).mpr
  refine Coherent.intact_of_workflows (hc.of_steps rfl rfl rfl hs ?_ ?_) hs rfl
  · intro u t ht
    apply hs
    unfold targets at ht
    rw [step_mapStep] at ht
    split at ht
    · rename_i hu
      obtain ⟨x, hx, hxt⟩ := List.mem_filterMap.mp ht
      rw [hu.1] at hx
      exact (hf x hx t hxt).elim (hc.targets s t) id
    · exact hc.targets u t ht
  · exact fun u => step_mapStep_keeps (p := (·.isDecision = true)) hd

/-- A step may change in everything but its successors and whether it is a decision. -/
theorem upholds_mapStep_of_same {f : Step → Step} (hf : (f (e.step s)).successors = (e.step s).successors)
    (hd : (f (e.step s)).isDecision = (e.step s).isDecision) : Upholds e (e.mapStep s f) := by
  apply upholds_mapStep
  · intro x hx t ht
    rw [hf] at hx
    exact .inl (List.mem_filterMap.mpr ⟨x, hx, ht⟩)
  · intro hs
    rw [hd]
    exact hs

/-- Only workflows have changed. -/
theorem Coherent.of_workflows (hc : Coherent e) (hs : e'.steps = e.steps) (hq : e'.queues = e.queues)
    (hm : e'.managers = e.managers) (hw : ∀ w, e.HasWorkflow w → e'.HasWorkflow w)
    (ha : ∀ w, (e.workflow w).Abides (e'.workflow w))
    (hcur : ∀ w, e'.HasWorkflow w → e.HasStep (e'.workflow w).current) : Intact e e' := by
  have hhas : ∀ s, e'.HasStep s ↔ e.HasStep s := hasStep_of_steps hs
  refine ⟨hc.of_desks hq hm hw ha ?_ (hc.targets_of_steps hs) ?_, fun s => (hhas s).mpr, hw, ha⟩
  · intro w hw'
    exact (hhas _).mpr (hcur w hw')
  · intro s hd
    rw [step_of_steps hs]
    exact hd

/-- A workflow may change as it abides, and go on to a step that is there. -/
theorem upholds_mapWorkflow {f : Workflow → Workflow} (ha : (e.workflow w).Abides (f (e.workflow w)))
    (hcur : (f (e.workflow w)).current = (e.workflow w).current ∨ e.HasStep (f (e.workflow w)).current) :
    Upholds e (e.mapWorkflow w f) := by
  intro hc
  refine hc.of_workflows rfl rfl rfl (fun v => (hasWorkflow_mapWorkflow e w v f).mpr)
    (rel_workflow_mapWorkflow ha) fun v hv => ?_
  rw [hasWorkflow_mapWorkflow] at hv
  rw [workflow_mapWorkflow]
  split
  · rename_i hvw
    rw [hvw.1] at hv ⊢
    rcases hcur with hcur | hcur
    · rw [hcur]
      exact hc.current w hv
    · exact hcur
  · exact hc.current v hv

theorem upholds_mapQueue {f : DecisionQueue → DecisionQueue}
    (hf : ∀ s ∈ (f (e.queue q)).decisions, s ∈ (e.queue q).decisions ∨ (e.step s).isDecision = true) :
    Upholds e (e.mapQueue q f) := by
  intro hc
  refine Coherent.intact_of_workflows ?_ (fun _ hs => hs) rfl
  refine
    { hc with
      hasQueue := fun m hm => ?_
      decisions := fun p s hs => ?_
      registered := fun m id w hr => (hc.registered m id w hr).mono (fun hw => hw) (Workflow.abides_refl _) }
  · exact (hasQueue_mapQueue e q _ f).mpr (hc.hasQueue m hm)
  · show (e.step s).isDecision = true
    rw [queue_mapQueue] at hs
    split at hs
    · rename_i hp
      rw [hp.1] at hs
      exact (hf s hs).elim (hc.decisions q s) id
    · exact hc.decisions p s hs

/-- A manager may change as long as it keeps its queue and lists properly what runs. -/
theorem upholds_mapManager {f : Manager → Manager} (hq : (f (e.manager m)).queue = (e.manager m).queue)
    (hk : (Entries.keys (e.manager m).running).Nodup → (Entries.keys (f (e.manager m)).running).Nodup)
    (hr : (Entries.keys (e.manager m).running).Nodup → ∀ id w,
      Entries.get? id (f (e.manager m)).running = some w →
        running? e m id = some w ∨ e.Registered m id w) :
    Upholds e (e.mapManager m f) := by
  intro hc
  -- No manager gets another queue, so none gets that of another.
  have hqueue : ∀ n, ((e.mapManager m f).manager n).queue = (e.manager n).queue := by
    intro n
    rw [manager_mapManager]
    split
    · rename_i hn
      rw [hn.1]
      exact hq
    · rfl
  refine Coherent.intact_of_workflows ?_ (fun _ hs => hs) rfl
  refine
    { hc with
      hasQueue := fun n hn => ?_
      ownQueue := fun n k hn hk => ?_
      keys := fun n => ?_
      registered := fun n id w hrun => ?_ }
  · rw [hqueue]
    exact hc.hasQueue n ((hasManager_mapManager e m n f).mp hn)
  · rw [hqueue, hqueue]
    exact hc.ownQueue n k ((hasManager_mapManager e m n f).mp hn) ((hasManager_mapManager e m k f).mp hk)
  · rw [manager_mapManager]
    split
    · rename_i hn
      rw [hn.1]
      exact hk (hc.keys m)
    · exact hc.keys n
  · have hreg : running? e n id = some w ∨ e.Registered n id w := by
      unfold running? at hrun
      rw [manager_mapManager] at hrun
      split at hrun
      · rename_i hn
        rw [hn.1] at hrun ⊢
        exact hr (hc.keys m) id w hrun
      · exact .inl hrun
    have hreg : e.Registered n id w := hreg.elim (hc.registered n id w) fun h => h
    exact ⟨hreg.hasWorkflow, hreg.id, hreg.listens, hreg.begun⟩

/-- Work on steps upholds the engine. -/
theorem works_upholds : Works (Upholds (σ := σ)) where
  aside e j c _ := upholds_aside e j c
  work _ _ _ hf := upholds_mapStep_of_same (Step.successors_of_frame hf.frame)
    (Step.isDecision_of_frame hf.frame)

/-! ## Queues and managers -/

section Telling

variable (hobs : ∀ l event, (h.observe l event).Always Upholds)
include hobs

omit hobs in
theorem updateQueue_upholds {f : DecisionQueue → DecisionQueue}
    (hf : ∀ d : DecisionQueue, ∀ s ∈ (f d).decisions, s ∈ d.decisions) :
    (updateQueue q f : Act σ Unit).Always Upholds :=
  always_modify fun e => upholds_mapQueue fun s hs => .inl (hf (e.queue q) s hs)

theorem emitQueue_upholds {kind : EventKind} (hk : kind.isOfQueue = true) :
    (emitQueue h q s kind).Always Upholds := always_emitQueue (fun l event _ => hobs l event) q s hk

/-- A decision may be added to a queue. -/
theorem enqueue_upholds (hs : (e.step s).isDecision = true) :
    (enqueue h q s).Ends e (fun _ => Upholds e) (fun _ => Upholds e) := by
  unfold enqueue appendQueued
  rw [ends_bind, ends_get, ends_onlyIf]
  split
  · rw [ends_bind, ends_updateQueue]
    have hadded : Upholds e (e.mapQueue q fun d => { d with decisions := d.decisions ++ [s] }) := by
      apply upholds_mapQueue
      intro t ht
      rcases List.mem_append.mp ht with ht | ht
      · exact .inl ht
      · rw [List.mem_singleton.mp ht]
        exact .inr hs
    have htold : (numberOf s >>= fun number => get >>= fun e₁ : Engine σ =>
        note queueLogger .info "Decision queued"
          [("decision_id", .int number), ("workflow_id", shownId (e₁.step s).workflowId),
            ("actor", shownActor (e₁.step s).actor)] >>= fun _ =>
          emitQueue h q s (.queued number)).Always Upholds :=
      (always_numberOf s).bind fun _ => always_get.bind fun _ => works_upholds.note.bind fun _ =>
        emitQueue_upholds hobs rfl
    exact (htold.ends _).after hadded
  · exact refl e

theorem dequeue_upholds : (dequeue h q s).Always Upholds := by
  refine always_get.bind fun _ => Always.onlyIf ?_ _
  refine Always.bind (updateQueue_upholds fun d t ht => (List.mem_filter.mp ht).1) fun _ => ?_
  exact (always_numberOf s).bind fun _ => emitQueue_upholds hobs rfl

omit hobs in
theorem finishManaged_upholds : (finishManaged m w : Act σ Unit).Always Upholds := by
  refine always_get.bind fun e => (always_failIf _ _).bind fun _ => ?_
  refine Always.bind (always_modify fun e₁ => upholds_mapManager rfl ?_ ?_) fun _ => works_upholds.note
  · exact fun hk => hk.sublist (Entries.keys_erase_sublist _ _)
  · intro hk id v hv
    by_cases hid : id = (e.workflow w).id
    · rw [hid, Entries.get?_erase_self hk] at hv
      contradiction
    · rw [Entries.get?_erase_of_ne _ hid] at hv
      exact .inl hv

theorem onFinished_upholds : (onFinished h m w).Always Upholds := by
  refine always_get.bind fun _ => Always.bind (Always.forM _ fun s _ => ?_) fun _ => finishManaged_upholds
  exact always_get.bind fun _ => (dequeue_upholds hobs).onlyIf _

theorem manage_upholds (event : Event) : (manage h m event).Always Upholds := by
  have hwaiting : ∀ w, (onWaiting h m w).Always Upholds := by
    intro w
    refine always_of_ends fun e => ?_
    unfold onWaiting
    rw [ends_bind, ends_get]
    split
    · rw [ends_onlyIf]
      split
      · rename_i hs
        exact enqueue_upholds hobs hs
      · exact refl e
    · exact (always_pure ()).ends e
  refine always_get.bind fun e => ?_
  split
  · exact always_pure _
  split
  · exact hwaiting _
  · exact onFinished_upholds hobs
  · exact onFinished_upholds hobs
  · exact always_pure _

theorem emit_upholds (kind : EventKind) : (emit h w kind).Always Upholds := by
  refine always_get.bind fun _ => Always.forM _ fun l _ => ?_
  cases l with
  | manager m => exact manage_upholds hobs _
  | observer l => exact hobs l _

end Telling

/-! ## Driving -/

theorem updateWorkflow_upholds {f : Workflow → Workflow} (ha : ∀ wf : Workflow, wf.Abides (f wf))
    (hcur : ∀ wf, (f wf).current = wf.current) : (updateWorkflow w f : Act σ Unit).Always Upholds :=
  always_modify fun e => upholds_mapWorkflow (ha (e.workflow w)) (.inl (hcur (e.workflow w)))

theorem moveWorkflow_upholds (next : WorkflowState) : (moveWorkflow w next : Act σ Unit).Always Upholds := by
  refine always_of_ends fun e => ?_
  simp only [moveWorkflow, ends_bind, ends_get, ends_failIf, ends_updateWorkflow, ends_note]
  split
  · exact refl e
  · rename_i hn
    have ha : (e.workflow w).state.allows next = true := by simpa using hn
    have hmoved : Upholds e (e.mapWorkflow w ({ · with state := next })) :=
      upholds_mapWorkflow (Workflow.abides_of_allows ha rfl rfl rfl) (.inl rfl)
    exact IsTrans.trans _ _ _ hmoved (upholds_aside _ _ _)

theorem record_upholds : (record w s : Act σ Unit).Always Upholds :=
  updateWorkflow_upholds (fun _ => Workflow.abides_of_same rfl rfl rfl) fun _ => rfl

theorem bindStep_upholds (c : ContextId) : (bindStep s id c : Act σ Unit).Always Upholds :=
  always_get.bind fun _ => (always_failIf _ _).bind fun _ =>
    always_modify fun _ => upholds_mapStep_of_same rfl rfl

/-- A workflow goes on to a step that is there. -/
theorem follow_upholds (ht : e.HasStep t) (o : Outcome) :
    (follow w s t o).Ends e (fun _ => Upholds e) (fun _ => Upholds e) := by
  simp only [follow, ends_bind, ends_get, ends_failIf, ends_bindStep, ends_updateWorkflow, ends_note]
  split
  · exact refl e
  split
  · exact refl e
  have hbound : Upholds e (e.mapStep t (·.boundTo (e.workflow w))) := upholds_mapStep_of_same rfl rfl
  have hmoved : Upholds (e.mapStep t (·.boundTo (e.workflow w)))
      ((e.mapStep t (·.boundTo (e.workflow w))).mapWorkflow w (·.moved s t)) := by
    apply upholds_mapWorkflow
    · exact Workflow.abides_of_same rfl rfl rfl
    · exact .inr ((hasStep_mapStep e t t _).mpr ht)
  exact IsTrans.trans _ _ _ hbound (IsTrans.trans _ _ _ hmoved (upholds_aside _ _ _))

structure Upholding (h : Hooks σ γ) : Prop where
  starting : ∀ s, (h.starting s).Always Upholds
  execute : ∀ s context, (h.execute s context).Always Upholds
  present : ∀ s context, (h.present s context).Always Upholds
  observe : ∀ l event, (h.observe l event).Always Upholds

section Driving

variable (hh : Upholding h)
include hh

theorem finish_upholds (next : WorkflowState) (kind : EventKind) : (finish h w next kind).Always Upholds := by
  refine (moveWorkflow_upholds next).bind fun _ => works_upholds.readClock.bind fun _ => ?_
  refine Always.bind ?_ fun _ => emit_upholds hh.observe kind
  exact updateWorkflow_upholds (fun _ => Workflow.abides_of_same rfl rfl rfl) fun _ => rfl

theorem pause_upholds : (pause h w s).Always Upholds := by
  refine always_get.bind fun e => ?_
  dsimp only
  split
  · exact (moveWorkflow_upholds _).bind fun _ => (emit_upholds hh.observe _).bind fun _ => always_pure _
  · exact always_pure _

theorem leave_upholds : (leave h w s).Always Upholds := by
  refine record_upholds.bind fun _ => always_of_ends fun e => ends_upholds fun hc => ?_
  rw [ends_bind, ends_get]
  dsimp only
  split
  · exact ((finish_upholds hh .aborted _).bind fun _ => always_pure _).ends e
  · split
    · exact ((finish_upholds hh .completed _).bind fun _ => always_pure _).ends e
    · rename_i t ht
      rw [ends_bind]
      exact follow_upholds (hc.targets s t (mem_targets_of_next? ht)) _

theorem turn_upholds : (turn h w context).Always Upholds := by
  refine always_get.bind fun _ => always_get.bind fun _ => Always.bind (Always.onlyIf ?_ _) fun _ =>
    always_get.bind fun _ => ?_
  · exact works_upholds.runStep (hh.starting _) (hh.execute _ _) (hh.present _ _)
  · split
    · exact leave_upholds hh
    · exact pause_upholds hh

theorem traverse_upholds (turns : Nat) : (traverse h w context turns).Always Upholds := by
  induction turns with
  | zero => exact always_throw _
  | succ turns ih =>
    refine (turn_upholds hh).bind fun progress => ?_
    cases progress with
    | stop state => exact always_pure state
    | goOn => exact ih

theorem process_upholds : (process h w context).Always Upholds :=
  always_get.bind fun _ => traverse_upholds hh _

theorem enter_upholds : (enter h w).Always Upholds := by
  refine always_get.bind fun e => (always_failIf _ _).bind fun _ => ?_
  split
  · split
    · exact (moveWorkflow_upholds _).bind fun _ => (emit_upholds hh.observe _).bind fun _ => always_pure _
    · exact always_pure _
  · refine (moveWorkflow_upholds _).bind fun _ => works_upholds.readClock.bind fun _ => ?_
    refine Always.bind ?_ fun _ => (emit_upholds hh.observe _).bind fun _ => always_pure _
    exact updateWorkflow_upholds (fun _ => Workflow.abides_of_same rfl rfl rfl) fun _ => rfl
  · exact always_pure _

/-- Advancing a workflow upholds the engine. -/
theorem advance_upholds : (advance h w context).Always Upholds := by
  rw [advance_eq_enter]
  refine (enter_upholds hh).bind fun go => ?_
  split
  · exact process_upholds hh
  · exact always_pure _

/-- Aborting a workflow upholds the engine. -/
theorem abort_upholds : (abort h w).Always Upholds := by
  refine always_get.bind fun e => (always_failIf _ _).bind fun _ => ?_
  exact ((works_upholds.setOutcome _).onlyIf _).bind fun _ => (record_upholds.onlyIf _).bind fun _ =>
    finish_upholds hh _ _

end Driving

end Engine

end ApprovalFlow
