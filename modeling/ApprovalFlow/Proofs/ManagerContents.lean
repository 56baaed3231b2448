import ApprovalFlow.Engine.Management
import ApprovalFlow.Proofs.Work

/-!
# What a manager keeps

The desk of a manager is what it keeps: its running and finished workflows and the decisions in its queue.
When a workflow to which the manager listens begins to wait, the decision is enlisted; when the workflow
is over, its decisions leave the queue and it is filed. Only a listener that raises can come in between.
-/

namespace ApprovalFlow

structure Desk where
  nextId : Nat
  running : Entries Int WorkflowId
  finished : List WorkflowId
  queue : List StepId
  deriving DecidableEq

def Hooks.Silent {σ γ : Type} (h : Hooks σ γ) : Prop :=
  ∀ l event e, ((h.observe l event).run e).1 = .ok ()

namespace Desk

/-- The desk with a decision at the end of the queue, unless it is there. -/
def enlisted (d : Desk) (s : StepId) : Desk :=
  { d with queue := if d.queue.contains s then d.queue else d.queue ++ [s] }

def keeping (d : Desk) (p : StepId → Bool) : Desk := { d with queue := d.queue.filter p }

def filed (d : Desk) (id : Int) (w : WorkflowId) : Desk :=
  { d with running := Entries.erase id d.running, finished := d.finished ++ [w] }

theorem keeping_keeping (d : Desk) (p q : StepId → Bool) :
    (d.keeping p).keeping q = d.keeping fun s => p s && q s := by
  simp only [keeping, List.filter_filter, Bool.and_comm]

theorem keeping_congr {d : Desk} {p q : StepId → Bool} (h : ∀ s, p s = q s) :
    d.keeping p = d.keeping q := by
  rw [funext h]

theorem keeping_eq_self {d : Desk} {p : StepId → Bool} (h : ∀ s ∈ d.queue, p s = true) :
    d.keeping p = d := by
  unfold keeping
  rw [List.filter_eq_self.mpr h]

theorem mem_enlisted {d : Desk} {s t : StepId} : t ∈ (d.enlisted s).queue ↔ t ∈ d.queue ∨ t = s := by
  unfold enlisted
  dsimp only
  split
  · rename_i hs
    refine (or_iff_left_of_imp ?_).symm
    rintro rfl
    exact List.contains_iff_mem.mp hs
  · rw [List.mem_append, List.mem_singleton]

theorem mem_keeping {d : Desk} {p : StepId → Bool} {t : StepId} :
    t ∈ (d.keeping p).queue ↔ t ∈ d.queue ∧ p t = true :=
  List.mem_filter

theorem mem_filed {d : Desk} {id : Int} {w v : WorkflowId} :
    v ∈ (d.filed id w).finished ↔ v ∈ d.finished ∨ v = w := by
  unfold filed
  rw [List.mem_append, List.mem_singleton]

/-- What is filed is no longer registered. -/
theorem get?_filed {d : Desk} (h : (Entries.keys d.running).Nodup) (p : StepId → Bool) (id : Int)
    (w : WorkflowId) : Entries.get? id ((d.keeping p).filed id w).running = none :=
  Entries.get?_erase_self h id

theorem nodup_enlisted {d : Desk} (h : d.queue.Nodup) (s : StepId) : (d.enlisted s).queue.Nodup := by
  unfold enlisted
  dsimp only
  split
  · exact h
  · rename_i hs
    refine List.nodup_append.mpr ⟨h, List.pairwise_singleton _ s, fun t ht u hu => ?_⟩
    rw [List.mem_singleton.mp hu]
    rintro rfl
    exact hs (List.contains_iff_mem.mpr ht)

end Desk

namespace Workflow

def Observed (wf : Workflow) : Prop := ∃ obs : List ListenerId, wf.listeners = obs.map .observer

/-- The manager `m` listens to the workflow, after the observers. -/
def Managed (m : ManagerId) (wf : Workflow) : Prop :=
  ∃ obs : List ListenerId, wf.listeners = obs.map .observer ++ [.manager m]

theorem Managed.mem {m : ManagerId} {wf : Workflow} (h : wf.Managed m) : .manager m ∈ wf.listeners := by
  obtain ⟨obs, h⟩ := h
  rw [h]
  exact List.mem_append_right _ List.mem_cons_self

theorem Observed.not_managed {m : ManagerId} {wf : Workflow} (h : wf.Observed) : ¬wf.Managed m := by
  intro hm
  obtain ⟨obs, h⟩ := h
  have hmem := hm.mem
  rw [h] at hmem
  obtain ⟨l, -, hl⟩ := List.mem_map.mp hmem
  contradiction

end Workflow

namespace Engine

open Act

variable {σ γ : Type} {m : ManagerId} {w : WorkflowId} {s : StepId} {e e' e'' : Engine σ}

def desk (e : Engine σ) (m : ManagerId) : Desk :=
  ⟨(e.manager m).nextId, (e.manager m).running, (e.manager m).finished,
    (e.queue (e.manager m).queue).decisions⟩

structure HasDesk (e : Engine σ) (m : ManagerId) : Prop where
  manager : e.HasManager m
  queue : e.HasQueue (e.manager m).queue

def belongs (e : Engine σ) (w : WorkflowId) (s : StepId) : Bool :=
  (e.step s).workflowId == some (e.workflow w).id

/-- Nothing but what managers keep has changed, and the manager `m` has the desk `d`. -/
structure Files (m : ManagerId) (d : Desk) (e e' : Engine σ) : Prop where
  steps : e'.steps = e.steps
  workflows : e'.workflows = e.workflows
  queueId : (e'.manager m).queue = (e.manager m).queue
  hasDesk : e'.HasDesk m
  desk : e'.desk m = d

theorem HasDesk.same (hd : e.HasDesk m) (hm : e'.managers = e.managers) (hq : e'.queues = e.queues) :
    e'.HasDesk m where
  manager := (hasManager_of_managers hm m).mpr hd.manager
  queue := by
    rw [manager_of_managers hm, hasQueue_of_queues hq]
    exact hd.queue

theorem files_of_core (hd : e.HasDesk m) (hc : e'.core = e.core) : Files m (e.desk m) e e' where
  steps := congrArg Core.steps hc
  workflows := congrArg Core.workflows hc
  queueId := by rw [manager_of_core hc]
  hasDesk := hd.same (congrArg Core.managers hc) (congrArg Core.queues hc)
  desk := by
    unfold Engine.desk
    rw [manager_of_core hc, queue_of_core hc]

theorem Files.trans {d d' : Desk} (h : Files m d e e') (h' : Files m d' e' e'') :
    Files m d' e e'' :=
  ⟨h'.steps.trans h.steps, h'.workflows.trans h.workflows, h'.queueId.trans h.queueId, h'.hasDesk,
    h'.desk⟩

theorem Files.core {d : Desk} (h : Files m d e e') (hc : e''.core = e'.core) : Files m d e e'' :=
  h.desk ▸ h.trans (files_of_core h.hasDesk hc)

theorem Files.step {d : Desk} (h : Files m d e e') (s : StepId) : e'.step s = e.step s :=
  step_of_steps h.steps s

theorem Files.workflow {d : Desk} (h : Files m d e e') (w : WorkflowId) :
    e'.workflow w = e.workflow w :=
  workflow_of_workflows h.workflows w

theorem Files.belongs {d : Desk} (h : Files m d e e') (w : WorkflowId) :
    e'.belongs w = e.belongs w := by
  funext s
  unfold Engine.belongs
  rw [h.step, h.workflow]

theorem files_mapQueue (hd : e.HasDesk m) (f : List StepId → List StepId) :
    Files m { e.desk m with queue := f (e.desk m).queue } e
      (e.mapQueue (e.manager m).queue fun q => { q with decisions := f q.decisions }) where
  steps := rfl
  workflows := rfl
  queueId := rfl
  hasDesk := ⟨hd.manager, (hasQueue_mapQueue ..).mpr hd.queue⟩
  desk := by
    unfold Engine.desk
    rw [manager_mapQueue, queue_mapQueue, if_pos ⟨rfl, hd.queue⟩]

theorem files_mapManager (hd : e.HasDesk m) {f : Manager → Manager}
    (hf : (f (e.manager m)).queue = (e.manager m).queue) :
    Files m ⟨(f (e.manager m)).nextId, (f (e.manager m)).running, (f (e.manager m)).finished,
      (e.desk m).queue⟩ e (e.mapManager m f) := by
  have hm : (e.mapManager m f).manager m = f (e.manager m) := by
    rw [manager_mapManager, if_pos ⟨rfl, hd.manager⟩]
  refine ⟨rfl, rfl, by rw [hm, hf], ⟨(hasManager_mapManager ..).mpr hd.manager, ?_⟩, ?_⟩
  · rw [hm, hf]; exact hd.queue
  · unfold Engine.desk
    rw [hm, hf, queue_mapManager]

/-! ## The queue -/

section Queue

variable {h : Hooks σ γ} (hq : h.Quiet)
include hq

theorem observe_ends (l : ListenerId) (event : Event) (e : Engine σ) :
    (h.observe l event).Ends e (fun _ e' => e'.core = e.core)
      (fun _ e' => e'.core = e.core ∧ ¬h.Silent) := by
  have hc : ((h.observe l event).run e).2.core = e.core := hq.observe l event e
  have ho := ends_run (h.observe l event) e
  refine ho.mono (fun _ e' hr => ?_) fun x e' hr => ⟨?_, fun hs => ?_⟩
  · rw [hr] at hc; exact hc
  · rw [hr] at hc; exact hc
  · have := hs l event e
    rw [hr] at this
    contradiction

omit hq in
theorem observers_ends {ι : Type} (tellOne : ι → Act σ Unit)
    (ht : ∀ l e, (tellOne l).Ends e (fun _ e' => e'.core = e.core)
      (fun _ e' => e'.core = e.core ∧ ¬h.Silent)) (ls : List ι) (e : Engine σ) :
    (ls.forM tellOne).Ends e (fun _ e' => e'.core = e.core)
      (fun _ e' => e'.core = e.core ∧ ¬h.Silent) := by
  induction ls generalizing e with
  | nil => exact rfl
  | cons l ls ih =>
    rw [ends_forM_cons]
    refine (ht l e).mono (fun _ e₁ h₁ => ?_) fun _ _ h => h
    exact (ih e₁).mono (fun _ _ h₂ => h₂.trans h₁) fun _ _ h₂ => ⟨h₂.1.trans h₁, h₂.2⟩

theorem emitQueue_ends (q : QueueId) (s : StepId) (kind : EventKind) (e : Engine σ) :
    (emitQueue h q s kind).Ends e (fun _ e' => e'.core = e.core)
      (fun _ e' => e'.core = e.core ∧ ¬h.Silent) := by
  unfold emitQueue
  rw [ends_bind, ends_get]
  exact observers_ends _ (fun l e => observe_ends hq l _ e) _ e

omit hq in
/-- Decisions have a number, and other steps have none. -/
theorem numberOf_tells (s : StepId) (e : Engine σ) :
    (numberOf s).Ends e (fun n e' => ((e.step s).isDecision = true ∧ n = (e.step s).number) ∧ e' = e)
      (fun _ e' => (e.step s).isDecision = false ∧ e' = e) := by
  unfold numberOf Step.isDecision Step.number
  rw [ends_bind, ends_get]
  dsimp only
  split
  · rename_i hd
    rw [hd]
    exact ⟨⟨rfl, rfl⟩, rfl⟩
  · rename_i hn
    rw [hn]
    exact ⟨rfl, rfl⟩

omit hq in
theorem numberOf_ends (hs : (e.step s).isDecision = true) :
    (numberOf s).Ends e (fun n e' => n = (e.step s).number ∧ e' = e) (fun _ _ => False) :=
  (numberOf_tells s e).mono (fun _ _ h => ⟨h.1.2, h.2⟩) fun _ _ h => Bool.false_ne_true (h.1.symm.trans hs)

theorem enqueue_ends (hd : e.HasDesk m) (hs : (e.step s).isDecision = true) :
    (enqueue h (e.manager m).queue s).Ends e
      (fun _ => Files m ((e.desk m).enlisted s) e)
      (fun _ e' => Files m ((e.desk m).enlisted s) e e' ∧ ¬h.Silent) := by
  unfold enqueue
  rw [ends_bind, ends_get, ends_onlyIf]
  unfold Desk.enlisted
  cases hc : (e.desk m).queue.contains s
  case true =>
    have hq' : isQueued e (e.manager m).queue s = true := hc
    rw [hq', Bool.not_true, if_neg Bool.false_ne_true, if_pos rfl]
    exact files_of_core hd rfl
  case false =>
    have hq' : isQueued e (e.manager m).queue s = false := hc
    rw [hq', Bool.not_false, if_pos rfl, if_neg Bool.false_ne_true]
    unfold appendQueued
    -- The queue has grown by now, whether or not its listeners can be told.
    have hf := files_mapQueue hd (· ++ [s])
    rw [ends_bind, ends_updateQueue, ends_bind]
    refine (numberOf_ends (by rw [hf.step]; exact hs)).mono ?_ fun _ _ => False.elim
    rintro n _ ⟨-, rfl⟩
    rw [ends_bind, ends_get, ends_bind, ends_note]
    exact (emitQueue_ends hq _ s _ _).mono (fun _ _ hc => hf.core hc)
      fun _ _ hc => ⟨hf.core hc.1, hc.2⟩

theorem dequeue_ends (hd : e.HasDesk m) (hs : (e.step s).isDecision = true) :
    (dequeue h (e.manager m).queue s).Ends e
      (fun _ => Files m ((e.desk m).keeping (· != s)) e)
      (fun _ e' => Files m ((e.desk m).keeping (· != s)) e e' ∧ ¬h.Silent) := by
  unfold dequeue
  rw [ends_bind, ends_get, ends_onlyIf]
  have hf := files_mapQueue hd (·.filter (· != s))
  split
  · unfold removeQueued
    rw [ends_bind, ends_updateQueue, ends_bind]
    refine (numberOf_ends (by rw [hf.step]; exact hs)).mono ?_ fun _ _ => False.elim
    rintro n _ ⟨-, rfl⟩
    exact (emitQueue_ends hq _ s _ _).mono (fun _ _ hc => hf.core hc)
      fun _ _ hc => ⟨hf.core hc.1, hc.2⟩
  · rename_i hn
    -- A decision that is not queued need not be taken out.
    have hk : (e.desk m).keeping (· != s) = e.desk m := by
      refine Desk.keeping_eq_self fun t ht => ?_
      have hne : t ≠ s := by
        rintro rfl
        exact hn (List.contains_iff_mem.mpr ht)
      exact bne_iff_ne.mpr hne
    rw [hk]
    exact files_of_core hd rfl

end Queue

/-! ## The end of a workflow -/

section Finishing

variable {h : Hooks σ γ} (hq : h.Quiet)
include hq

theorem dropIfOf_ends (hd : e.HasDesk m) (hs : (e.step s).isDecision = true) :
    (dropIfOf h (e.manager m).queue w s).Ends e
      (fun _ => Files m ((e.desk m).keeping fun t => !(t == s && e.belongs w t)) e)
      (fun _ e' => Files m ((e.desk m).keeping fun t => !(t == s && e.belongs w t)) e e' ∧
        ¬h.Silent) := by
  unfold dropIfOf
  rw [ends_bind, ends_get, ends_onlyIf]
  cases hw : e.belongs w s
  case true =>
    have hk : ((e.desk m).keeping fun t => !(t == s && e.belongs w t)) =
        (e.desk m).keeping (· != s) := by
      refine Desk.keeping_congr fun t => ?_
      by_cases hts : t = s
      · rw [hts, hw, Bool.and_true]; rfl
      · rw [beq_eq_false_iff_ne.mpr hts, bne_iff_ne.mpr hts]; rfl
    have hw' : ((e.step s).workflowId == some (e.workflow w).id) = true := hw
    rw [hk, hw', if_pos rfl]
    exact dequeue_ends hq hd hs
  case false =>
    have hk : ((e.desk m).keeping fun t => !(t == s && e.belongs w t)) = e.desk m := by
      refine Desk.keeping_eq_self fun t _ => ?_
      by_cases hts : t = s
      · rw [hts, hw, Bool.and_false]; rfl
      · rw [beq_eq_false_iff_ne.mpr hts]; rfl
    have hw' : ((e.step s).workflowId == some (e.workflow w).id) = false := hw
    rw [hk, hw', if_neg Bool.false_ne_true]
    exact files_of_core hd rfl

theorem drops_ends (ss : List StepId) (hd : e.HasDesk m)
    (hs : ∀ s ∈ ss, (e.step s).isDecision = true) :
    (ss.forM (dropIfOf h (e.manager m).queue w)).Ends e
      (fun _ => Files m ((e.desk m).keeping fun t => !(ss.contains t && e.belongs w t)) e)
      (fun _ e' => ¬h.Silent ∧ ∃ p : StepId → Bool,
        (∀ t, e.belongs w t = false → p t = true) ∧ Files m ((e.desk m).keeping p) e e') := by
  induction ss generalizing e with
  | nil =>
    have hk : ((e.desk m).keeping fun t => !(([] : List StepId).contains t && e.belongs w t)) =
        e.desk m := Desk.keeping_eq_self fun _ _ => rfl
    rw [hk]
    exact files_of_core hd rfl
  | cons s ss ih =>
    rw [ends_forM_cons]
    have hp : ∀ t, e.belongs w t = false → (!(t == s && e.belongs w t)) = true := by
      intro t ht
      rw [ht, Bool.and_false]
      rfl
    refine (dropIfOf_ends hq hd (hs s List.mem_cons_self)).mono ?_ fun _ e₁ h₁ => ⟨h₁.2, _, hp, h₁.1⟩
    intro _ e₁ h₁
    have hs₁ : ∀ t ∈ ss, (e₁.step t).isDecision = true := by
      intro t ht
      rw [h₁.step]
      exact hs t (List.mem_cons_of_mem s ht)
    -- The rest is dropped from what the first one has left.
    have ih₁ := ih h₁.hasDesk hs₁
    simp only [h₁.queueId, h₁.belongs, h₁.desk, Desk.keeping_keeping] at ih₁
    refine ih₁.mono ?_ ?_
    · intro _ e₂ h₂
      have hk : ((e.desk m).keeping fun t =>
          !(t == s && e.belongs w t) && !(ss.contains t && e.belongs w t)) =
          (e.desk m).keeping fun t => !((s :: ss).contains t && e.belongs w t) := by
        refine Desk.keeping_congr fun t => ?_
        rw [List.contains_cons]
        cases t == s <;> cases ss.contains t <;> cases e.belongs w t <;> rfl
      rw [hk] at h₂
      exact h₁.trans h₂
    · rintro _ e₂ ⟨hsil, p, hp₂, h₂⟩
      refine ⟨hsil, fun t => !(t == s && e.belongs w t) && p t, fun t ht => ?_, h₁.trans h₂⟩
      show (!(t == s && e.belongs w t) && p t) = true
      rw [hp t ht, hp₂ t ht]
      rfl

/-- A workflow that is over loses its decisions in the queue and is filed. -/
theorem onFinished_ends (hd : e.HasDesk m) (hs : ∀ s ∈ (e.desk m).queue, (e.step s).isDecision = true)
    (hr : running? e m (e.workflow w).id = some w) :
    (onFinished h m w).Ends e
      (fun _ => Files m (((e.desk m).keeping fun t => !e.belongs w t).filed (e.workflow w).id w) e)
      (fun _ e' => ¬h.Silent ∧ ∃ p : StepId → Bool,
        (∀ t, e.belongs w t = false → p t = true) ∧ Files m ((e.desk m).keeping p) e e') := by
  unfold onFinished
  simp only [ends_bind, ends_get]
  refine (drops_ends hq (e.desk m).queue hd hs).mono ?_ fun _ _ hf => hf
  intro _ e₁ h₁
  have hk : ((e.desk m).keeping fun t => !((e.desk m).queue.contains t && e.belongs w t)) =
      (e.desk m).keeping fun t => !e.belongs w t := by
    unfold Desk.keeping
    congr 1
    refine List.filter_congr fun t ht => ?_
    rw [List.contains_iff_mem.mpr ht, Bool.true_and]
  rw [hk] at h₁
  -- The queue alone has changed so far, so the workflow is found in the register.
  have hrun : (e₁.manager m).running = (e.manager m).running := congrArg Desk.running h₁.desk
  have hcon : Entries.contains (e₁.manager m).running (e₁.workflow w).id = true := by
    unfold Entries.contains
    rw [hrun, h₁.workflow]
    unfold running? at hr
    rw [hr]
    rfl
  unfold finishManaged
  simp only [ends_bind, ends_get, ends_failIf, ends_updateManager, ends_note]
  rw [hcon, Bool.not_true, if_neg Bool.false_ne_true]
  rw [h₁.workflow]
  have hf := files_mapManager h₁.hasDesk (f := fun mg => { mg with
    running := Entries.erase (e.workflow w).id mg.running, finished := mg.finished ++ [w] }) rfl
  have hdesk : (((e.desk m).keeping fun t => !e.belongs w t).filed (e.workflow w).id w) =
      ⟨(e₁.manager m).nextId, Entries.erase (e.workflow w).id (e₁.manager m).running,
        (e₁.manager m).finished ++ [w], (e₁.desk m).queue⟩ := by
    rw [← h₁.desk]
    rfl
  rw [hdesk]
  exact (h₁.trans hf).core rfl

end Finishing

/-! ## Telling the manager -/

section Emitting

variable {h : Hooks σ γ} (hq : h.Quiet)
include hq

theorem told_observers (obs : List ListenerId) (event : Event) (e : Engine σ) :
    ((obs.map Listener.observer).forM (tell h event)).Ends e (fun _ e' => e'.core = e.core)
      (fun _ e' => e'.core = e.core ∧ ¬h.Silent) := by
  have hmap : (obs.map Listener.observer).forM (tell h event) =
      obs.forM fun l => tell h event (.observer l) := List.forM_map
  rw [hmap]
  exact observers_ends _ (fun l => observe_ends hq l event) obs e

theorem emit_observed (ho : (e.workflow w).Observed) (kind : EventKind) :
    (emit h w kind).Ends e (fun _ e' => e'.core = e.core)
      (fun _ e' => e'.core = e.core ∧ ¬h.Silent) := by
  obtain ⟨obs, hobs⟩ := ho
  simp only [emit, ends_bind, ends_get, hobs]
  exact told_observers hq obs _ e

theorem emit_managed (hm : (e.workflow w).Managed m) (kind : EventKind)
    {Q : Unit → Engine σ → Prop} {F : Failure → Engine σ → Prop}
    (hmanage : ∀ e₁ : Engine σ, e₁.core = e.core →
      (manage h m ⟨(e.workflow w).id, kind⟩).Ends e₁ Q F)
    (hfail : ∀ x (e₁ : Engine σ), e₁.core = e.core → ¬h.Silent → F x e₁) :
    (emit h w kind).Ends e Q F := by
  obtain ⟨obs, hobs⟩ := hm
  simp only [emit, ends_bind, ends_get, hobs]
  -- The observers are told first; if one of them raises, the manager is not told.
  have happ : (obs.map Listener.observer ++ [Listener.manager m]).forM (tell h ⟨(e.workflow w).id, kind⟩) =
      (obs.map Listener.observer).forM (tell h ⟨(e.workflow w).id, kind⟩) >>= fun _ =>
        [Listener.manager m].forM (tell h ⟨(e.workflow w).id, kind⟩) := List.forM_append
  rw [happ, ends_bind]
  refine (told_observers hq obs _ e).mono (fun _ e₁ h₁ => ?_) fun x e₁ h₁ => hfail x e₁ h₁.1 h₁.2
  rw [ends_forM_cons]
  exact hmanage e₁ h₁

/-- The decision for which a workflow begins to wait is enlisted. -/
theorem emit_waiting (hm : (e.workflow w).Managed m) (hd : e.HasDesk m)
    (hr : running? e m (e.workflow w).id = some w) (hlive : (e.workflow w).state.isTerminal = false)
    (hs : (e.step (e.workflow w).current).isDecision = true) (n : Nat) :
    (emit h w (.waiting n)).Ends e
      (fun _ => Files m ((e.desk m).enlisted (e.workflow w).current) e)
      (fun _ e' => ¬h.Silent ∧ (Files m (e.desk m) e e' ∨
        Files m ((e.desk m).enlisted (e.workflow w).current) e e')) := by
  refine emit_managed hq hm _ (fun e₁ h₁ => ?_) fun _ e₁ h₁ hsil => ⟨hsil, .inl (files_of_core hd h₁)⟩
  have hf := files_of_core hd h₁
  have hr₁ : Entries.get? (e.workflow w).id (e₁.manager m).running = some w := by
    rw [manager_of_core h₁]
    exact hr
  -- The manager looks up the workflow by its id, and the decision as its current step.
  have hcur : (e₁.workflow w).current? = some (e.workflow w).current := by
    unfold Workflow.current?
    rw [hf.workflow, hlive, if_neg Bool.false_ne_true]
  have hs₁ : (e₁.step (e.workflow w).current).isDecision = true := by rw [hf.step]; exact hs
  unfold manage onWaiting
  simp only [ends_bind, ends_get, hr₁, hcur, ends_onlyIf, hs₁, if_true]
  have hen := enqueue_ends hq hf.hasDesk hs₁
  rw [hf.desk] at hen
  exact hen.mono (fun _ _ h₂ => hf.trans h₂) fun _ _ h₂ => ⟨h₂.2, .inr (hf.trans h₂.1)⟩

/-- A workflow that is over is filed, without its decisions in the queue. -/
theorem emit_over (hm : (e.workflow w).Managed m) (hd : e.HasDesk m)
    (hr : running? e m (e.workflow w).id = some w)
    (hs : ∀ s ∈ (e.desk m).queue, (e.step s).isDecision = true) {kind : EventKind}
    (hk : (∃ o, kind = .completed o) ∨ ∃ o, kind = .aborted o) :
    (emit h w kind).Ends e
      (fun _ => Files m (((e.desk m).keeping fun t => !e.belongs w t).filed (e.workflow w).id w) e)
      (fun _ e' => ¬h.Silent ∧ ∃ p : StepId → Bool,
        (∀ t, e.belongs w t = false → p t = true) ∧ Files m ((e.desk m).keeping p) e e') := by
  refine emit_managed hq hm _ (fun e₁ h₁ => ?_) fun _ e₁ h₁ hsil => ?_
  · have hf := files_of_core hd h₁
    have hr₁ : Entries.get? (e.workflow w).id (e₁.manager m).running = some w := by
      rw [manager_of_core h₁]
      exact hr
    have hs₁ : ∀ s ∈ (e₁.desk m).queue, (e₁.step s).isDecision = true := by
      intro s hs'
      rw [hf.step]
      exact hs s (hf.desk ▸ hs')
    have hfin := onFinished_ends (w := w) hq hf.hasDesk hs₁ (by rw [hf.workflow]; exact hr₁)
    simp only [hf.belongs, hf.workflow, hf.desk] at hfin
    unfold manage
    rw [ends_bind, ends_get, hr₁]
    rcases hk with ⟨o, rfl⟩ | ⟨o, rfl⟩
    all_goals
      refine hfin.mono (fun _ _ h₂ => hf.trans h₂) ?_
      rintro _ e₂ ⟨hsil, p, hp, h₂⟩
      exact ⟨hsil, p, hp, hf.trans h₂⟩
  · refine ⟨hsil, fun _ => true, fun _ _ => rfl, ?_⟩
    rw [Desk.keeping_eq_self fun _ _ => rfl]
    exact files_of_core hd h₁

end Emitting

end Engine

end ApprovalFlow
