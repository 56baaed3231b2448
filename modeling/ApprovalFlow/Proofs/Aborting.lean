import ApprovalFlow.Proofs.Activity
import ApprovalFlow.Proofs.DecisionGate
import ApprovalFlow.Proofs.HookCalls

/-!
# Aborting always works

In a coherent engine, and so after whatever has been done, a workflow that is not over can be aborted. Its
managers are told once, one after another, and each files what it lists under the workflow's id (`Dismisses`);
apart from that only the workflow and the step that it is on have changed (`Aborts`). The workflow is over
then for good (`abort_always_works`).
-/

namespace ApprovalFlow

open Act

variable {σ γ α : Type}

/-- Listeners call no operation of the engine, not even on contexts, and never raise. -/
structure Hooks.OnlyListen (h : Hooks σ γ) : Prop extends h.Discreet where
  contexts : ∀ l event, (h.observe l event).Always fun e e' => e'.contexts = e.contexts

def Hooks.Hears (h : Hooks σ γ) (log : σ → List (ListenerId × Event)) : Prop :=
  ∀ l event, (h.observe l event).Always fun e e' => log e'.host = log e.host ++ [(l, event)]

def ofWorkflows (heard : List (ListenerId × Event)) : List (ListenerId × Event) :=
  heard.filter fun x => !x.2.kind.isOfQueue

/-- What those among some listeners that are not managers hear of an event: each hears it once. -/
def Event.heardBy (event : Event) (ls : List Listener) : List (ListenerId × Event) :=
  ls.filterMap fun
    | .observer l => some (l, event)
    | .manager _ => none

theorem WorkflowState.allows_aborted {state : WorkflowState} (hlive : state.isTerminal = false) :
    state.allows .aborted = true := by
  cases state <;> first | rfl | contradiction

theorem Workflow.getLast?_history_aborted (wf : Workflow) (t : Instant) :
    (wf.aborted t).history.getLast? = some wf.current := by
  unfold aborted
  split
  · exact List.getLast?_concat
  · rename_i hn
    have hlast : wf.history.getLast? = some wf.current := by simpa using hn
    exact hlast

namespace Engine

open Tended (provided)

variable {log : σ → List (ListenerId × Event)} {e e' e'' : Engine σ} {h : Hooks σ γ} {w v : WorkflowId}
  {s : StepId} {m : ManagerId} {q : QueueId} {id : Int} {key : String} {l : Listener} {ls : List Listener}

/-! ## What managers make of the end of a workflow -/

/-- The desk after an end has been told under an id: what is listed as running under the id is filed, and the
decisions that are bound to the id leave the queue. -/
def clearing (e : Engine σ) (id : Int) (d : Desk) : Desk :=
  match Entries.get? id d.running with
  | some w => (d.keeping fun s => (e.step s).workflowId != some id).filed id w
  | none => d

theorem clearing_of_none {d : Desk} (hd : Entries.get? id d.running = none) : e.clearing id d = d := by
  unfold clearing
  rw [hd]

theorem clearing_of_some {d : Desk} (hd : Entries.get? id d.running = some w) :
    e.clearing id d = (d.keeping fun s => (e.step s).workflowId != some id).filed id w := by
  unfold clearing
  rw [hd]

/-- To be told again makes no difference, since an id is listed once. -/
theorem clearing_clearing {d : Desk} (hk : (Entries.keys d.running).Nodup) :
    e.clearing id (e.clearing id d) = e.clearing id d := by
  cases hd : Entries.get? id d.running with
  | none => rw [clearing_of_none hd, clearing_of_none hd]
  | some w =>
    rw [clearing_of_some hd]
    exact clearing_of_none (Entries.get?_erase_self hk id)

theorem clearing_of_bindings (hb : ∀ s, (e'.step s).workflowId = (e.step s).workflowId) (id : Int) :
    e'.clearing id = e.clearing id := by
  funext d
  unfold clearing
  simp only [hb]

/-- Of the listeners those in `ls` have been told of the end of a workflow under an id: managers among them
have cleared their desks, and nothing else has changed. -/
structure Dismisses (id : Int) (ls : List Listener) (e e' : Engine σ) : Prop where
  steps : e'.steps = e.steps
  workflows : e'.workflows = e.workflows
  hasManager : ∀ m, e'.HasManager m ↔ e.HasManager m
  queueId : ∀ m, (e'.manager m).queue = (e.manager m).queue
  desks : ∀ m, e.HasManager m →
    e'.desk m = if .manager m ∈ ls then e.clearing id (e.desk m) else e.desk m
  queues : ∀ q, (∀ m, .manager m ∈ ls → (e.manager m).queue ≠ q) → e'.queue q = e.queue q

theorem dismisses_of_core (hcore : e'.core = e.core) (hls : ∀ m, .manager m ∈ ls → e.HasManager m →
    Entries.get? id (e.desk m).running = none) : Dismisses id ls e e' where
  steps := congrArg Core.steps hcore
  workflows := congrArg Core.workflows hcore
  hasManager := hasManager_of_managers (congrArg Core.managers hcore)
  queueId m := by rw [manager_of_core hcore]
  desks m hm := by
    have hdesk : e'.desk m = e.desk m := by
      unfold Engine.desk
      rw [manager_of_core hcore, queue_of_core hcore]
    rw [hdesk]
    split
    · rename_i hl
      rw [clearing_of_none (hls m hl hm)]
    · rfl
  queues q _ := queue_of_core hcore q

theorem Dismisses.cons (hc : Coherent e) (h : Dismisses id [l] e e') (h' : Dismisses id ls e' e'') :
    Dismisses id (l :: ls) e e'' where
  steps := h'.steps.trans h.steps
  workflows := h'.workflows.trans h.workflows
  hasManager m := (h'.hasManager m).trans (h.hasManager m)
  queueId m := (h'.queueId m).trans (h.queueId m)
  desks m hm := by
    have hclear : e'.clearing id = e.clearing id :=
      clearing_of_bindings (fun s => by rw [step_of_steps h.steps]) id
    rw [h'.desks m ((h.hasManager m).mpr hm), h.desks m hm, hclear]
    simp only [List.mem_cons, List.not_mem_nil, or_false]
    -- Whether it is told now, later or both times.
    by_cases hl : Listener.manager m = l
    · by_cases hls : Listener.manager m ∈ ls
      · rw [if_pos hls, if_pos hl, if_pos (.inl hl), clearing_clearing (hc.keys m)]
      · rw [if_neg hls, if_pos hl, if_pos (.inl hl)]
    · by_cases hls : Listener.manager m ∈ ls
      · rw [if_pos hls, if_neg hl, if_pos (.inr hls)]
      · rw [if_neg hls, if_neg hl, if_neg (not_or.mpr ⟨hl, hls⟩)]
  queues q hq := by
    rw [h'.queues q fun m hm => ?_, h.queues q fun m hm => ?_]
    · exact hq m (List.mem_cons.mpr (.inl (List.mem_singleton.mp hm)))
    · rw [h.queueId]
      exact hq m (List.mem_cons_of_mem l hm)

theorem hasManager_of_running? (hr : running? e m id = some w) : e.HasManager m := by
  apply Classical.byContradiction
  intro hn
  unfold running? Engine.manager at hr
  rw [Array.getD_eq_getD_getElem?, Array.getElem?_eq_none (Nat.not_lt.mp hn)] at hr
  contradiction

structure OffDesk (m : ManagerId) (q : QueueId) (e e' : Engine σ) : Prop where
  managers : ∀ n, n ≠ m → e'.manager n = e.manager n
  queueIds : ∀ n, (e'.manager n).queue = (e.manager n).queue
  queues : ∀ p, p ≠ q → e'.queue p = e.queue p
  hasManager : ∀ n, e'.HasManager n ↔ e.HasManager n

instance : IsPreorder (Engine σ) (OffDesk m q) where
  refl _ := ⟨fun _ _ => rfl, fun _ => rfl, fun _ _ => rfl, fun _ => Iff.rfl⟩
  trans _ _ _ h h' :=
    { managers := fun n hn => (h'.managers n hn).trans (h.managers n hn)
      queueIds := fun n => (h'.queueIds n).trans (h.queueIds n)
      queues := fun p hp => (h'.queues p hp).trans (h.queues p hp)
      hasManager := fun n => (h'.hasManager n).trans (h.hasManager n) }

theorem offDesk_of_core (hcore : e'.core = e.core) : OffDesk m q e e' where
  managers n _ := manager_of_core hcore n
  queueIds n := by rw [manager_of_core hcore]
  queues p _ := queue_of_core hcore p
  hasManager := hasManager_of_managers (congrArg Core.managers hcore)

section Telling

variable (hd : h.Discreet)
include hd

theorem onFinished_offDesk (e : Engine σ) :
    (onFinished h m w).Ends e (fun _ => OffDesk m (e.manager m).queue e)
      (fun _ => OffDesk m (e.manager m).queue e) := by
  -- The queue is that of the manager as it was at first, whatever is done to the manager later.
  generalize hqueue : (e.manager m).queue = q
  have hnote : ∀ (level : Logging.Level) text extras,
      (note managerLogger level text extras : Act σ Unit).Always (OffDesk m q) :=
    fun _ _ _ => always_modify fun _ => offDesk_of_core rfl
  have hdrop : ∀ s, (dropIfOf h q w s).Always (OffDesk m q) := by
    intro s
    refine always_get.bind fun _ => Always.onlyIf (always_get.bind fun _ => Always.onlyIf ?_ _) _
    have hremoved : ∀ e₁ : Engine σ, OffDesk m q e₁
        (e₁.mapQueue q fun d => { d with decisions := d.decisions.filter (· != s) }) := fun e₁ =>
      ⟨fun _ _ => rfl, fun _ => rfl, fun p hp => queue_mapQueue_of_ne q p _ hp, fun _ => Iff.rfl⟩
    refine Always.bind (always_modify hremoved) fun _ => (always_numberOf s).bind fun _ => ?_
    exact always_emitQueue (fun l event _ => (hd.quiet l event).mono offDesk_of_core) q s rfl
  have hfile : (finishManaged m w : Act σ Unit).Always (OffDesk m q) := by
    refine always_get.bind fun e₁ => (always_failIf _ _).bind fun _ => Always.bind ?_ fun _ => hnote _ _ _
    refine always_modify fun e₂ =>
      ⟨fun n hn => ?_, fun n => ?_, fun _ _ => rfl, fun n => hasManager_mapManager e₂ m n _⟩
    · show (e₂.mapManager m _).manager n = _
      rw [manager_mapManager, if_neg fun h => hn h.1]
    · show ((e₂.mapManager m _).manager n).queue = _
      rw [manager_mapManager]
      split <;> rfl
  unfold onFinished
  rw [ends_bind, ends_get]
  dsimp only
  rw [hqueue]
  exact ((Always.forM _ fun s _ => hdrop s).bind fun _ => hfile).ends e

/-- A manager that is told of an end files what it lists under the id. -/
theorem manage_dismisses (hc : Coherent e) :
    (manage h m ⟨id, .aborted key⟩).Ends e (fun _ => Dismisses id [.manager m] e) (fun _ _ => False) := by
  unfold manage
  rw [ends_bind, ends_get]
  dsimp only
  cases hr : Entries.get? id (e.manager m).running with
  | none =>
    refine dismisses_of_core rfl fun n hn _ => ?_
    cases List.mem_singleton.mp hn
    exact hr
  | some v =>
    have hreg := hc.registered m id v hr
    have hm : e.HasManager m := hasManager_of_running? hr
    have hdesk : e.HasDesk m := ⟨hm, hc.hasQueue m hm⟩
    have hrun : running? e m (e.workflow v).id = some v := by
      rw [hreg.id]
      exact hr
    show (onFinished h.listening m v).Ends e _ _
    refine ((onFinished_ends hd.quiet_listening hdesk (hc.decisions _) hrun).and
      (onFinished_offDesk hd e)).mono ?_ fun _ _ hf => hf.1.1 hd.silent
    rintro _ e' ⟨hf, hb⟩
    refine ⟨hf.steps, hf.workflows, hb.hasManager, hb.queueIds, fun n hn => ?_, fun q hq => ?_⟩
    · by_cases hne : n = m
      · rw [hne, hf.desk, if_pos List.mem_cons_self, clearing_of_some hr]
        unfold Engine.belongs
        rw [hreg.id]
        rfl
      · have hother : (e.manager n).queue ≠ (e.manager m).queue := fun h => hne (hc.ownQueue n m hn hm h)
        rw [if_neg fun h => hne (Listener.manager.inj (List.mem_singleton.mp h))]
        unfold Engine.desk
        rw [hb.managers n hne, hb.queues _ hother]
    · exact hb.queues q fun h => hq m List.mem_cons_self h.symm

theorem tell_dismisses (hc : Coherent e) (l : Listener) :
    (tell h ⟨id, .aborted key⟩ l).Ends e (fun _ => Dismisses id [l] e) (fun _ _ => False) := by
  cases l with
  | manager m => exact manage_dismisses hd hc
  | observer l =>
    refine (observe_ends hd.quiet_listening l _ e).mono (fun _ e' hcore => ?_) fun _ _ hf => hf.2 hd.silent
    exact dismisses_of_core hcore fun m hm => absurd (List.mem_singleton.mp hm) nofun

/-- By induction on the listeners: the engine is coherent again whenever the next one is told. -/
theorem tells_dismiss (hc : Coherent e) (ls : List Listener) :
    (ls.forM (tell h ⟨id, .aborted key⟩)).Ends e (fun _ => Dismisses id ls e) (fun _ _ => False) := by
  have htell : ∀ l, (tell h ⟨id, .aborted key⟩ l).Always Upholds := by
    intro l
    have hobs : ∀ l event, (h.observe l event).Always Upholds :=
      fun l event => (hd.quiet l event).mono upholds_of_core
    cases l with
    | manager m => exact manage_upholds hobs _
    | observer l => exact hobs l _
  induction ls generalizing e with
  | nil => exact dismisses_of_core rfl fun _ hm => absurd hm List.not_mem_nil
  | cons l ls ih =>
    rw [ends_forM_cons]
    refine ((tell_dismisses hd hc l).and ((htell l).ends e)).mono ?_ fun _ _ hf => hf.1
    rintro _ e₁ ⟨h₁, hup⟩
    exact (ih (hup hc).coherent).mono (fun _ _ h₂ => h₁.cons hc h₂) fun _ _ hf => hf

end Telling

/-! ## What observers hear -/

section Hearing

variable (hlog : h.Hears log)
include hlog

theorem tell_heard {event : Event} (hk : event.kind.isOfQueue = false) (l : Listener) :
    (tell h event l).Always fun e e' =>
      ofWorkflows (log e'.host) = ofWorkflows (log e.host) ++ event.heardBy [l] := by
  intro e
  cases l with
  | observer l =>
    show ofWorkflows (log ((h.observe l event).run e).2.host) = _
    rw [hlog l event e]
    unfold ofWorkflows
    rw [List.filter_append, List.filter_cons_of_pos (by rw [hk]; rfl)]
    rfl
  | manager m =>
    -- A manager may have its queue tell of changes, and that is not heard of a workflow.
    have hunseen : (manage h m event).Always (Unseen fun x => ofWorkflows (log x)) := by
      refine always_manage (fun l event hqueue e => ?_) (fun _ _ _ hh _ => ?_) m event
      · show ofWorkflows (log ((h.observe l event).run e).2.host) = _
        rw [hlog l event e]
        unfold ofWorkflows
        rw [List.filter_append, List.filter_cons_of_neg (by rw [hqueue]; simp)]
        exact List.append_nil _
      · exact congrArg (fun x => ofWorkflows (log x)) hh
    exact (hunseen e).trans (List.append_nil _).symm

theorem emit_heard (w : WorkflowId) (kind : EventKind) (hk : kind.isOfQueue = false) (e : Engine σ) :
    (emit h w kind).Ends e
      (fun _ e' => ofWorkflows (log e'.host) =
        ofWorkflows (log e.host) ++ (⟨(e.workflow w).id, kind⟩ : Event).heardBy (e.workflow w).listeners)
      (fun _ _ => True) := by
  unfold emit
  rw [ends_bind, ends_get]
  dsimp only
  generalize (e.workflow w).listeners = ls
  generalize hevent : (⟨(e.workflow w).id, kind⟩ : Event) = event
  have hk : event.kind.isOfQueue = false := hevent ▸ hk
  clear hevent
  induction ls generalizing e with
  | nil => exact (List.append_nil _).symm
  | cons l ls ih =>
    rw [ends_forM_cons]
    refine ((tell_heard hlog hk l).ends e).mono (fun _ e₁ h₁ => ?_) fun _ _ _ => trivial
    refine (ih e₁).mono (fun _ e₂ h₂ => ?_) fun _ _ _ => trivial
    have hcons : event.heardBy (l :: ls) = event.heardBy [l] ++ event.heardBy ls :=
      List.filterMap_append (l := [l])
    rw [h₂, h₁, hcons, List.append_assoc]

end Hearing

/-! ## Aborting -/

/-- The workflow has been aborted with the step that it was on, and nobody has been told. -/
structure Stopped (w : WorkflowId) (e e' : Engine σ) : Prop where
  step : ∃ t, e'.step (e.workflow w).current =
    if (e.step (e.workflow w).current).isCompleted then e.step (e.workflow w).current
    else (e.step (e.workflow w).current).given .abort t
  steps : ∀ s, s ≠ (e.workflow w).current → e'.step s = e.step s
  workflow : ∃ t, e'.workflow w = (e.workflow w).aborted t
  workflows : ∀ v, v ≠ w → e'.workflow v = e.workflow v
  queues : e'.queues = e.queues
  managers : e'.managers = e.managers

theorem Stopped.bindings (hs : Stopped w e e') (s : StepId) : (e'.step s).workflowId = (e.step s).workflowId := by
  by_cases hcur : s = (e.workflow w).current
  · obtain ⟨t, ht⟩ := hs.step
    rw [hcur, ht]
    split
    · rfl
    · exact Step.workflowId_of_frame (Step.frame_given ..)
  · rw [hs.steps s hcur]

theorem Stopped.desk (hs : Stopped w e e') (m : ManagerId) : e'.desk m = e.desk m := by
  unfold Engine.desk
  rw [manager_of_managers hs.managers, queue_of_queues hs.queues]

/-- The step that the workflow is on is completed, by the abort if it was not before, and nothing else has
changed. -/
structure Halted (w : WorkflowId) (e e' : Engine σ) : Prop where
  step : ∃ t, e'.step (e.workflow w).current =
    if (e.step (e.workflow w).current).isCompleted then e.step (e.workflow w).current
    else (e.step (e.workflow w).current).given .abort t
  steps : ∀ s, s ≠ (e.workflow w).current → e'.step s = e.step s
  workflows : e'.workflows = e.workflows
  queues : e'.queues = e.queues
  managers : e'.managers = e.managers
  host : e'.host = e.host
  upholds : Upholds e e'

/-- Of the two cases in which the engine may be when the workflow itself is ended. -/
theorem halted_of (hcur : e.HasStep (e.workflow w).current)
    (h : if (e.step (e.workflow w).current).isCompleted then e' = e
      else e'.Alike (e.mapStep (e.workflow w).current (·.given .abort e.clock.now)) ∧
        e.clock.GoesOn e'.clock) : Halted w e e' := by
  split at h
  · rename_i hcompleted
    rw [h]
    exact ⟨⟨e.clock.now, (if_pos hcompleted).symm⟩, fun _ _ => rfl, rfl, rfl, rfl, rfl, refl e⟩
  · rename_i hcompleted
    obtain ⟨ha, -⟩ := h
    have hgiven : Upholds e (e.mapStep (e.workflow w).current (·.given .abort e.clock.now)) :=
      upholds_mapStep_of_same (Step.successors_of_frame (Step.frame_given ..))
        (Step.isDecision_of_frame (Step.frame_given ..))
    refine ⟨⟨e.clock.now, ?_⟩, fun s hs => ?_, congrArg Core.workflows ha.core,
      congrArg Core.queues ha.core, congrArg Core.managers ha.core, ha.host,
      IsTrans.trans _ _ _ hgiven (upholds_of_core ha.core)⟩
    · rw [step_of_core ha.core, step_mapStep_self _ hcur, if_neg hcompleted]
    · rw [step_of_core ha.core, step_mapStep_of_ne _ _ hs]

/-- A workflow that is not over is stopped, and then its listeners are told. -/
theorem abort_stops {Q : Unit → Engine σ → Prop} {F : Failure → Engine σ → Prop} (hc : Coherent e)
    (hw : e.HasWorkflow w) (hlive : (e.workflow w).state.isTerminal = false)
    (hq : ∀ e', Stopped w e e' → Coherent e' → e'.host = e.host →
      (emit h w (.aborted Outcome.abort.key)).Ends e' Q F) :
    (abort h w).Ends e Q F := by
  apply abort_closes
  · intro hover
    rw [hlive] at hover
    contradiction
  intro _ e₁ h₁ e' he' _
  -- The step that the workflow is on comes first, then the workflow, which is as it was until then.
  have hhalted := halted_of (hc.current w hw) h₁
  have hwf : e₁.workflow w = e.workflow w := workflow_of_workflows hhalted.workflows w
  have hw₁ : e₁.HasWorkflow w := (hasWorkflow_of_workflows hhalted.workflows w).mpr hw
  have habides : (e₁.workflow w).Abides ((e₁.workflow w).aborted e₁.clock.now) := by
    apply Workflow.abides_of_allows
    · rw [hwf]
      exact WorkflowState.allows_aborted hlive
    · exact Workflow.state_aborted ..
    · exact Workflow.id_aborted ..
    · exact Workflow.listeners_aborted ..
  have hended : Upholds e₁ (e₁.mapWorkflow w (·.aborted e₁.clock.now)) :=
    upholds_mapWorkflow habides (.inl (Workflow.current_aborted ..))
  have hstopped : Stopped w e e' :=
    { step := by
        rw [step_of_core he'.core]
        exact hhalted.step
      steps := fun s hs => (step_of_core he'.core s).trans (hhalted.steps s hs)
      workflow := by
        refine ⟨e₁.clock.now, ?_⟩
        rw [workflow_of_core he'.core, workflow_mapWorkflow_self _ hw₁, hwf]
      workflows := fun v hv => by
        rw [workflow_of_core he'.core, workflow_mapWorkflow_of_ne _ _ hv,
          workflow_of_workflows hhalted.workflows]
      queues := (congrArg Core.queues he'.core).trans hhalted.queues
      managers := (congrArg Core.managers he'.core).trans hhalted.managers }
  have hcoherent := (upholds_of_core he'.core (hended (hhalted.upholds hc).coherent).coherent).coherent
  exact hq e' hstopped hcoherent (he'.host.trans hhalted.host)

/-- The workflow `w` has been aborted: nothing has changed but the workflow, the step that it was on and what
those managers keep that listened to it. -/
structure Aborts (w : WorkflowId) (e e' : Engine σ) : Prop where
  state : (e'.workflow w).state = .aborted
  completed : (e'.step (e.workflow w).current).isCompleted = true
  outcome : (e'.step (e.workflow w).current).outcome =
    if (e.step (e.workflow w).current).isCompleted then (e.step (e.workflow w).current).outcome
    else .abort
  history : (e'.workflow w).history =
    if (e.workflow w).history.getLast? = some (e.workflow w).current then (e.workflow w).history
    else (e.workflow w).history ++ [(e.workflow w).current]
  last : (e'.workflow w).history.getLast? = some (e.workflow w).current
  step : ∃ t, e'.step (e.workflow w).current =
    if (e.step (e.workflow w).current).isCompleted then e.step (e.workflow w).current
    else (e.step (e.workflow w).current).given .abort t
  workflow : ∃ t, e'.workflow w = (e.workflow w).aborted t
  steps : ∀ s, s ≠ (e.workflow w).current → e'.step s = e.step s
  workflows : ∀ v, v ≠ w → e'.workflow v = e.workflow v
  contexts : e'.contexts = e.contexts
  managed : ∀ m, running? e m (e.workflow w).id = some w →
    e'.desk m = ((e.desk m).keeping fun s => (e.step s).workflowId != some (e.workflow w).id).filed
      (e.workflow w).id w
  unmanaged : ∀ m, e.HasManager m →
    .manager m ∉ (e.workflow w).listeners ∨ running? e m (e.workflow w).id = none → e'.desk m = e.desk m
  queues : ∀ q, (∀ m, .manager m ∈ (e.workflow w).listeners → (e.manager m).queue ≠ q) →
    e'.queue q = e.queue q

/-- What stops a workflow and tells its managers aborts it. -/
theorem Stopped.aborts (hc : Coherent e) (hs : Stopped w e e')
    (ht : Dismisses (e.workflow w).id (e.workflow w).listeners e' e'') (hcontexts : e''.contexts = e.contexts) :
    Aborts w e e'' := by
  have hstep : ∀ s, e''.step s = e'.step s := step_of_steps ht.steps
  have hwf : ∀ v, e''.workflow v = e'.workflow v := workflow_of_workflows ht.workflows
  obtain ⟨t, hcur⟩ := hs.step
  obtain ⟨u, hself⟩ := hs.workflow
  have hdesk : ∀ m, e.HasManager m → e''.desk m =
      if .manager m ∈ (e.workflow w).listeners then e.clearing (e.workflow w).id (e.desk m)
      else e.desk m := by
    intro m hm
    rw [ht.desks m ((hasManager_of_managers hs.managers m).mpr hm), clearing_of_bindings hs.bindings, hs.desk]
  refine
    { state := ?_
      completed := ?_
      outcome := ?_
      history := ?_
      last := ?_
      step := ⟨t, (hstep _).trans hcur⟩
      workflow := ⟨u, (hwf w).trans hself⟩
      steps := fun s hne => (hstep s).trans (hs.steps s hne)
      workflows := fun v hne => (hwf v).trans (hs.workflows v hne)
      contexts := hcontexts
      managed := fun m hr => ?_
      unmanaged := fun m hm hn => ?_
      queues := fun q hq => ?_ }
  · rw [hwf, hself]
    exact Workflow.state_aborted ..
  · rw [hstep, hcur]
    split
    · assumption
    · exact Step.isCompleted_given rfl t
  · rw [hstep, hcur]
    split
    · rfl
    · exact Step.outcome_given ..
  · rw [hwf, hself]
    unfold Workflow.aborted
    by_cases hl : (e.workflow w).history.getLast? = some (e.workflow w).current
    · rw [if_neg (by simp [hl]), if_pos hl]
      rfl
    · rw [if_pos (by simpa using hl), if_neg hl]
      rfl
  · rw [hwf, hself]
    exact Workflow.getLast?_history_aborted ..
  · have hlistens := (hc.registered m _ w hr).listens
    rw [hdesk m (hasManager_of_running? hr), if_pos hlistens]
    exact clearing_of_some hr
  · rw [hdesk m hm]
    split
    · rename_i hlistens
      exact clearing_of_none (hn.resolve_left fun h => h hlistens)
    · rfl
  · rw [ht.queues q fun m hm => ?_, queue_of_queues hs.queues]
    rw [manager_of_managers hs.managers]
    exact hq m hm

def SameContexts (e e' : Engine σ) : Prop := e'.contexts = e.contexts

instance : IsPreorder (Engine σ) SameContexts where
  refl _ := rfl
  trans _ _ _ h h' := Eq.trans h' h

theorem carries_sameContexts : Carries (SameContexts (σ := σ)) w where
  aside _ _ _ _ := rfl
  work _ _ _ _ := rfl
  flow _ _ _ := rfl

/-- In a coherent engine a workflow that is not over is aborted. -/
theorem abort_aborts (hc : Coherent e) (hh : h.OnlyListen) (hw : e.HasWorkflow w)
    (hlive : (e.workflow w).state.isTerminal = false) :
    (abort h w).Ends e (fun _ => Aborts w e) (fun _ _ => False) := by
  have hcontexts : (abort h w).Always SameContexts :=
    carries_sameContexts.abort fun kind _ => always_emit (fun _ _ hs _ _ => hs) hh.contexts w kind
  have hmain : (abort h w).Ends e
      (fun _ e'' => ∃ e', Stopped w e e' ∧
        Dismisses (e.workflow w).id (e.workflow w).listeners e' e'') (fun _ _ => False) := by
    refine abort_stops hc hw hlive fun e' hs hc' _ => ?_
    obtain ⟨t, hself⟩ := hs.workflow
    unfold emit
    rw [ends_bind, ends_get, hself]
    dsimp only
    rw [Workflow.listeners_aborted, Workflow.id_aborted]
    exact (tells_dismiss hh.toDiscreet hc' _).mono (fun _ _ ht => ⟨e', hs, ht⟩) fun _ _ hf => hf
  refine (hmain.and (hcontexts.ends e)).mono ?_ fun _ _ hf => hf.1
  rintro _ e'' ⟨⟨e', hs, ht⟩, hsame⟩
  exact hs.aborts hc ht hsame

theorem abort_heard (hc : Coherent e) (hlog : h.Hears log) (hw : e.HasWorkflow w)
    (hlive : (e.workflow w).state.isTerminal = false) :
    (abort h w).Ends e
      (fun _ e' => ofWorkflows (log e'.host) = ofWorkflows (log e.host) ++
        (⟨(e.workflow w).id, .aborted Outcome.abort.key⟩ : Event).heardBy (e.workflow w).listeners)
      (fun _ _ => True) := by
  refine abort_stops hc hw hlive fun e' hs _ hhost => ?_
  obtain ⟨t, hself⟩ := hs.workflow
  have htold := emit_heard hlog w (.aborted Outcome.abort.key) rfl e'
  rw [hself, Workflow.listeners_aborted, Workflow.id_aborted, hhost] at htold
  exact htold

/-! ## Once and for all -/

/-- The workflow is over, whatever is asked of it. -/
theorem refuses_of_isTerminal {id : Int} {state : WorkflowState} (hi : (e.workflow w).id = id)
    (hs : (e.workflow w).state = state) (hover : state.isTerminal = true) (h : Hooks σ γ) (context : γ) :
    (advance h w context).run e = (.error (.workflowOver id state), e) ∧
      (abort h w).run e = (.error (.workflowOver id state), e) := by
  subst hi hs
  constructor
  · unfold advance
    rw [run_bind, run_get]
    dsimp only
    rw [run_bind, run_failIf, if_pos hover]
  · unfold abort
    rw [run_bind, run_get]
    dsimp only
    rw [run_bind, run_failIf, if_pos hover]

/-- Whatever has been done, a workflow that is not over is aborted when it is asked to be: that changes only
the workflow, the step that it is on and what its managers keep, and each of the other listeners hears of it
once. Whatever is done later, the workflow refuses to be advanced or aborted. -/
theorem abort_always_works {past : Act σ α} (hpast : Activity (Active : Hooks σ γ → Prop) past)
    (hblank : e.core = ⟨#[], #[], #[], #[]⟩) (hh : h.OnlyListen) (hw : (past.run e).2.HasWorkflow w)
    (hlive : ((past.run e).2.workflow w).state.isTerminal = false) :
    ∃ e', (abort h w).run (past.run e).2 = (.ok (), e') ∧ Aborts w (past.run e).2 e' ∧
      (∀ log, h.Hears log → ofWorkflows (log e'.host) = ofWorkflows (log (past.run e).2.host) ++
        (⟨((past.run e).2.workflow w).id, .aborted Outcome.abort.key⟩ : Event).heardBy
          ((past.run e).2.workflow w).listeners) ∧
      ∀ {β : Type} (later : Act σ β), Activity (Active : Hooks σ γ → Prop) later →
        ∃ x : Failure, x.kind = .illegalState ∧ ∀ (h' : Hooks σ γ) context,
          (advance h' w context).run (later.run e').2 = (.error x, (later.run e').2) ∧
            (abort h' w).run (later.run e').2 = (.error x, (later.run e').2) := by
  have hc : Coherent (past.run e).2 :=
    (hpast.upholds (fun _ hb => hb.upholding) e (coherent_of_blank hblank)).coherent
  generalize (past.run e).2 = e₀ at hc hw hlive
  obtain ⟨⟨⟩, e', hrun, ha⟩ := (abort_aborts hc hh hw hlive).exists_ok
  refine ⟨e', hrun, ha, fun log hlog => ?_, fun later hlater => ?_⟩
  · exact (abort_heard hc hlog hw hlive).of_ok hrun
  · have hc' : Coherent e' := by
      have hup : Upholding h.listening :=
        ⟨fun _ => always_pure _, fun _ _ => always_pure _, fun _ _ => always_pure _,
          fun l event => (hh.quiet l event).mono upholds_of_core⟩
      have hintact := abort_upholds (w := w) hup e₀ hc
      rw [show abort h.listening w = abort h w from rfl, hrun] at hintact
      exact hintact.coherent
    -- What is over stays over, and keeps its id.
    have habides := (hlater.upholds (fun _ hb => hb.upholding) e' hc').abides w
    have hover : (e'.workflow w).state.isTerminal = true := by
      rw [ha.state]
      rfl
    have hstate : ((later.run e').2.workflow w).state = .aborted := (habides.ended hover).trans ha.state
    refine ⟨.workflowOver ((later.run e').2.workflow w).id .aborted, rfl, fun h' context => ?_⟩
    exact refuses_of_isTerminal rfl hstate rfl h' context

/-! ## Two requests -/

def hearingHooks : Hooks (List (ListenerId × Event)) Unit where
  starting _ := pure ()
  execute _ _ := pure .complete
  present _ _ := pure ()
  observe l event := updateHost (· ++ [(l, event)])
  room := 0

def request (key actor : String) : Act (List (ListenerId × Event)) WorkflowId := do
  let s ← addDecision "Decision" key (some ⟨actor⟩) [.approve, .deny] true
  provided (·.HasStep s) (addWorkflow key s none 0 [])

/-- A manager starts two workflows. There is a listener to the first one. -/
def requesting : Act (List (ListenerId × Event)) WorkflowState := do
  let m ← addManager default
  let v ← request "travel" "anna"
  let w ← request "training" "bert"
  listenTo v (.observer ⟨0⟩)
  let _ ← provided (·.HasWorkflow v) (startManaged hearingHooks m v ())
  provided (·.HasWorkflow w) (startManaged hearingHooks m w ())

def unasked : Engine (List (ListenerId × Event)) := { clock := .counter 1 1, host := [] }

theorem onlyListen_hearingHooks : hearingHooks.OnlyListen where
  quiet _ _ _ := rfl
  silent _ _ _ := rfl
  contexts _ _ _ := rfl

theorem activity_requesting : Activity (Active : Hooks (List (ListenerId × Event)) Unit → Prop) requesting := by
  have hactive : Active hearingHooks := by
    apply active_of_quiet
    constructor <;> intros <;> exact fun _ => rfl
  have hrequest : ∀ key actor,
      Activity (Active : Hooks (List (ListenerId × Event)) Unit → Prop) (request key actor) :=
    fun _ _ => .bind (.addDecision ..) fun _ => .addWorkflow ..
  exact .bind (.addManager default) fun m => .bind (hrequest _ _) fun v => .bind (hrequest _ _) fun w =>
    .bind (.listenTo v _) fun _ => .bind (.startManaged hearingHooks m v () hactive) fun _ =>
      .startManaged hearingHooks m w () hactive

/-- Both requests wait. When the first one is aborted its decision leaves the queue, the listener hears of it
once, and the manager goes on with the second one. -/
theorem request_aborted :
    (requesting.run unasked).2.desk ⟨0⟩ = ⟨3, [(1, ⟨0⟩), (2, ⟨1⟩)], [], [⟨0⟩, ⟨1⟩]⟩ ∧
    ∃ e', (abort hearingHooks ⟨0⟩).run (requesting.run unasked).2 = (.ok (), e') ∧
      Aborts ⟨0⟩ (requesting.run unasked).2 e' ∧
      e'.desk ⟨0⟩ = ⟨3, [(2, ⟨1⟩)], [⟨0⟩], [⟨1⟩]⟩ ∧
      ofWorkflows e'.host =
        ofWorkflows (requesting.run unasked).2.host ++ [(⟨0⟩, ⟨1, .aborted "outcome.step.abort"⟩)] ∧
      ∃ x : Failure, x.kind = .illegalState ∧ (advance hearingHooks ⟨0⟩ ()).run e' = (.error x, e') ∧
        (abort hearingHooks ⟨0⟩).run e' = (.error x, e') := by
  have hrequested :
      (requesting.run unasked).2.desk ⟨0⟩ = ⟨3, [(1, ⟨0⟩), (2, ⟨1⟩)], [], [⟨0⟩, ⟨1⟩]⟩ := by
    decide +kernel
  have hblank : unasked.core = ⟨#[], #[], #[], #[]⟩ := rfl
  have hw : (requesting.run unasked).2.HasWorkflow ⟨0⟩ := by decide +kernel
  have hlive : ((requesting.run unasked).2.workflow ⟨0⟩).state.isTerminal = false := by decide +kernel
  obtain ⟨e', hrun, ha, hheard, hover⟩ :=
    abort_always_works activity_requesting hblank onlyListen_hearingHooks hw hlive
  refine ⟨hrequested, e', hrun, ha, ?_, ?_, ?_⟩
  · rw [ha.managed ⟨0⟩ (by decide +kernel), hrequested]
    decide +kernel
  · refine (hheard id fun _ _ _ => rfl).trans (congrArg _ ?_)
    decide +kernel
  · obtain ⟨x, hx, hrefused⟩ := hover (pure ()) (.calm fun _ => rfl)
    exact ⟨x, hx, hrefused hearingHooks ()⟩

end Engine

end ApprovalFlow
