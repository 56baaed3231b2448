import ApprovalFlow.Proofs.Action

/-!
# What the engine keeps

The `core` of an engine is what callers can see of it through steps, workflows, queues and managers. The
elementary actions change one thing of the core or none at all: what is told to loggers and read from the
clock is put `aside`. For each change there are equations for what is read after it.
-/

namespace ApprovalFlow

structure Core where
  steps : Array Step
  workflows : Array Workflow
  queues : Array DecisionQueue
  managers : Array Manager

namespace Clock

/-- The clock has gone on: it may have been read, but it has neither been set nor put back. -/
structure GoesOn (c c' : Clock) : Prop where
  reading : c'.reading = c.reading
  taken : c.taken ≤ c'.taken

instance : IsPreorder Clock GoesOn where
  refl _ := ⟨rfl, Nat.le_refl _⟩
  trans _ _ _ h h' := ⟨h'.reading.trans h.reading, Nat.le_trans h.taken h'.taken⟩

theorem goesOn_tick (c : Clock) : c.GoesOn c.tick := ⟨rfl, Nat.le_succ _⟩

end Clock

namespace Engine

open Act
open Logging (Note Level)

variable {σ : Type}

/-- What the engine keeps, apart from the journal, the clock, the contexts and the host. -/
def core (e : Engine σ) : Core := ⟨e.steps, e.workflows, e.queues, e.managers⟩

def HasStep (e : Engine σ) (s : StepId) : Prop := s.index < e.steps.size

def HasWorkflow (e : Engine σ) (w : WorkflowId) : Prop := w.index < e.workflows.size

def HasQueue (e : Engine σ) (q : QueueId) : Prop := q.index < e.queues.size

def HasManager (e : Engine σ) (m : ManagerId) : Prop := m.index < e.managers.size

instance (e : Engine σ) (s : StepId) : Decidable (e.HasStep s) := inferInstanceAs (Decidable (_ < _))

instance (e : Engine σ) (w : WorkflowId) : Decidable (e.HasWorkflow w) :=
  inferInstanceAs (Decidable (_ < _))

instance (e : Engine σ) (q : QueueId) : Decidable (e.HasQueue q) := inferInstanceAs (Decidable (_ < _))

instance (e : Engine σ) (m : ManagerId) : Decidable (e.HasManager m) :=
  inferInstanceAs (Decidable (_ < _))

/-! ## Changes -/

def mapStep (e : Engine σ) (s : StepId) (f : Step → Step) : Engine σ :=
  { e with steps := e.steps.modify s.index f }

def mapWorkflow (e : Engine σ) (w : WorkflowId) (f : Workflow → Workflow) : Engine σ :=
  { e with workflows := e.workflows.modify w.index f }

def mapQueue (e : Engine σ) (q : QueueId) (f : DecisionQueue → DecisionQueue) : Engine σ :=
  { e with queues := e.queues.modify q.index f }

def mapManager (e : Engine σ) (m : ManagerId) (f : Manager → Manager) : Engine σ :=
  { e with managers := e.managers.modify m.index f }

def mapContext (e : Engine σ) (c : ContextId) (f : Context → Context) : Engine σ :=
  { e with contexts := e.contexts.modify c.index f }

def aside (e : Engine σ) (journal : Array Note) (clock : Clock) : Engine σ := { e with journal, clock }

section Ends

variable {e : Engine σ} {F : Failure → Engine σ → Prop} {Q : Unit → Engine σ → Prop}

theorem ends_updateStep (s : StepId) (f : Step → Step) :
    (updateStep s f).Ends e Q F ↔ Q () (e.mapStep s f) := Iff.rfl

theorem ends_updateWorkflow (w : WorkflowId) (f : Workflow → Workflow) :
    (updateWorkflow w f).Ends e Q F ↔ Q () (e.mapWorkflow w f) := Iff.rfl

theorem ends_updateQueue (q : QueueId) (f : DecisionQueue → DecisionQueue) :
    (updateQueue q f).Ends e Q F ↔ Q () (e.mapQueue q f) := Iff.rfl

theorem ends_updateManager (m : ManagerId) (f : Manager → Manager) :
    (updateManager m f).Ends e Q F ↔ Q () (e.mapManager m f) := Iff.rfl

theorem ends_readClock {Q : Instant → Engine σ → Prop} :
    (readClock : Act σ Instant).Ends e Q F ↔ Q e.clock.now (e.aside e.journal e.clock.tick) := Iff.rfl

theorem ends_note (logger : String) (level : Level) (text : String) (extras : Entries String Value) :
    (note logger level text extras).Ends e Q F ↔
      Q () (e.aside (e.journal.push ⟨logger, level, .text text, [], extras⟩) e.clock) := Iff.rfl

end Ends

/-! ## Reading after a change -/

private theorem getD_modify {α : Type} (a : Array α) (i j : Nat) (f : α → α) (d : α) :
    (a.modify i f).getD j d = if j = i ∧ i < a.size then f (a.getD j d) else a.getD j d := by
  simp only [Array.getD_eq_getD_getElem?, Array.getElem?_modify]
  by_cases h : i = j
  · subst h
    by_cases hi : i < a.size <;> simp [hi]
  · have h' : j ≠ i := fun hj => h hj.symm
    simp [h, h']

private theorem modify_modify {α : Type} (a : Array α) (i : Nat) (f g : α → α) :
    (a.modify i f).modify i g = a.modify i fun x => g (f x) := by
  apply Array.ext
  · simp
  · intro j _ _
    simp only [Array.getElem_modify]
    split <;> rfl

private theorem modify_congr {α : Type} {a : Array α} {i : Nat} {f g : α → α} {d : α}
    (h : f (a.getD i d) = g (a.getD i d)) : a.modify i f = a.modify i g := by
  apply Array.ext
  · simp
  · intro j hj _
    simp only [Array.getElem_modify]
    split
    · rename_i hij
      subst hij
      rw [Array.size_modify] at hj
      rw [Array.getD_eq_getD_getElem?, Array.getElem?_eq_getElem hj] at h
      exact h
    · rfl

private theorem modify_eq_self {α : Type} {a : Array α} {i : Nat} {f : α → α} {d : α}
    (h : f (a.getD i d) = a.getD i d) : a.modify i f = a := by
  -- To modify by `id` changes nothing, and where it counts `f` is `id`.
  have hid : a.modify i id = a := by
    apply Array.ext
    · simp
    · intro j _ _
      simp only [Array.getElem_modify]
      split <;> rfl
  rw [modify_congr (g := id) h, hid]

section Reading

variable (e : Engine σ) (s t : StepId) (w v : WorkflowId) (q p : QueueId) (m n : ManagerId)
  (f : Step → Step) (g : Workflow → Workflow) (k : DecisionQueue → DecisionQueue)
  (l : Manager → Manager)

theorem step_mapStep :
    (e.mapStep s f).step t = if t = s ∧ e.HasStep s then f (e.step t) else e.step t := by
  have h := getD_modify e.steps s.index t.index f default
  have hi : t.index = s.index ↔ t = s := by cases t; cases s; simp
  simp only [hi] at h
  exact h

theorem workflow_mapWorkflow :
    (e.mapWorkflow w g).workflow v =
      if v = w ∧ e.HasWorkflow w then g (e.workflow v) else e.workflow v := by
  have h := getD_modify e.workflows w.index v.index g default
  have hi : v.index = w.index ↔ v = w := by cases v; cases w; simp
  simp only [hi] at h
  exact h

theorem queue_mapQueue :
    (e.mapQueue q k).queue p = if p = q ∧ e.HasQueue q then k (e.queue p) else e.queue p := by
  have h := getD_modify e.queues q.index p.index k default
  have hi : p.index = q.index ↔ p = q := by cases p; cases q; simp
  simp only [hi] at h
  exact h

theorem manager_mapManager :
    (e.mapManager m l).manager n =
      if n = m ∧ e.HasManager m then l (e.manager n) else e.manager n := by
  have h := getD_modify e.managers m.index n.index l default
  have hi : n.index = m.index ↔ n = m := by cases n; cases m; simp
  simp only [hi] at h
  exact h

theorem context_mapContext (c d : ContextId) (f : Context → Context) :
    (e.mapContext c f).context d =
      if d = c ∧ c.index < e.contexts.size then f (e.context d) else e.context d := by
  have h := getD_modify e.contexts c.index d.index f default
  have hi : d.index = c.index ↔ d = c := by cases d; cases c; simp
  simp only [hi] at h
  exact h

@[simp] theorem workflow_mapStep : (e.mapStep s f).workflow w = e.workflow w := rfl
@[simp] theorem step_mapWorkflow : (e.mapWorkflow w g).step s = e.step s := rfl
@[simp] theorem manager_mapQueue : (e.mapQueue q k).manager m = e.manager m := rfl
@[simp] theorem step_mapManager : (e.mapManager m l).step s = e.step s := rfl
@[simp] theorem workflow_mapManager : (e.mapManager m l).workflow w = e.workflow w := rfl
@[simp] theorem queue_mapManager : (e.mapManager m l).queue q = e.queue q := rfl

@[simp] theorem hasStep_mapStep : (e.mapStep s f).HasStep t ↔ e.HasStep t := by
  simp [HasStep, mapStep]

@[simp] theorem hasWorkflow_mapWorkflow : (e.mapWorkflow w g).HasWorkflow v ↔ e.HasWorkflow v := by
  simp [HasWorkflow, mapWorkflow]

@[simp] theorem hasQueue_mapQueue : (e.mapQueue q k).HasQueue p ↔ e.HasQueue p := by
  simp [HasQueue, mapQueue]

@[simp] theorem hasManager_mapManager : (e.mapManager m l).HasManager n ↔ e.HasManager n := by
  simp [HasManager, mapManager]

theorem mapStep_mapStep (f' : Step → Step) :
    (e.mapStep s f).mapStep s f' = e.mapStep s fun st => f' (f st) := by
  simp only [mapStep, modify_modify]

theorem mapWorkflow_mapWorkflow (g' : Workflow → Workflow) :
    (e.mapWorkflow w g).mapWorkflow w g' = e.mapWorkflow w fun wf => g' (g wf) := by
  simp only [mapWorkflow, modify_modify]

theorem mapManager_mapManager (l' : Manager → Manager) :
    (e.mapManager m l).mapManager m l' = e.mapManager m fun mg => l' (l mg) := by
  simp only [mapManager, modify_modify]

theorem mapManager_mapStep : (e.mapStep s f).mapManager m l = (e.mapManager m l).mapStep s f := rfl

theorem mapManager_mapWorkflow :
    (e.mapWorkflow w g).mapManager m l = (e.mapManager m l).mapWorkflow w g := rfl

theorem mapStep_mapWorkflow : (e.mapWorkflow w g).mapStep s f = (e.mapStep s f).mapWorkflow w g := rfl

variable {e s w}

/-- Only what a change does to the workflow that is there matters. -/
theorem mapWorkflow_congr {a b : Workflow → Workflow} (h : a (e.workflow w) = b (e.workflow w)) :
    e.mapWorkflow w a = e.mapWorkflow w b := by
  simp only [mapWorkflow, modify_congr h]

/-- Only what a change does to the manager that is there matters. -/
theorem mapManager_congr {m : ManagerId} {a b : Manager → Manager}
    (h : a (e.manager m) = b (e.manager m)) : e.mapManager m a = e.mapManager m b := by
  simp only [mapManager, modify_congr h]

/-- A change that leaves the step as it is changes nothing. -/
theorem mapStep_eq_self {f : Step → Step} (h : f (e.step s) = e.step s) : e.mapStep s f = e := by
  simp only [mapStep, modify_eq_self h]

/-- A change that leaves the workflow as it is changes nothing. -/
theorem mapWorkflow_eq_self (h : g (e.workflow w) = e.workflow w) : e.mapWorkflow w g = e := by
  simp only [mapWorkflow, modify_eq_self h]

/-- A changed step stands to the step as it was in every reflexive relation in which the change does. -/
theorem rel_step_mapStep {R : Step → Step → Prop} [Std.Refl R] (h : R (e.step s) (f (e.step s))) :
    R (e.step t) ((e.mapStep s f).step t) := by
  rw [step_mapStep]
  split
  · rename_i hts; rw [hts.1]; exact h
  · exact refl _

/-- What a change of a step preserves of that, it preserves of every step. -/
theorem step_mapStep_keeps {f : Step → Step} {p : Step → Prop} (h : p (e.step s) → p (f (e.step s)))
    {t : StepId} (ht : p (e.step t)) : p ((e.mapStep s f).step t) := by
  rw [step_mapStep]
  split
  · rename_i hts; rw [hts.1] at ht ⊢; exact h ht
  · exact ht

/-- What a change of a step leaves alone of that, it leaves alone of every step. -/
theorem step_mapStep_eq {f : Step → Step} {α : Type} {g : Step → α} (h : g (f (e.step s)) = g (e.step s))
    (t : StepId) : g ((e.mapStep s f).step t) = g (e.step t) :=
  step_mapStep_keeps (p := fun st => g st = g (e.step t)) h.trans rfl

/-- A changed workflow stands to the workflow as it was in every reflexive relation in which the change
does. -/
theorem rel_workflow_mapWorkflow {f : Workflow → Workflow} {R : Workflow → Workflow → Prop} [Std.Refl R]
    (h : R (e.workflow w) (f (e.workflow w))) (v : WorkflowId) :
    R (e.workflow v) ((e.mapWorkflow w f).workflow v) := by
  rw [workflow_mapWorkflow]
  split
  · rename_i hv; rw [hv.1]; exact h
  · exact refl _

/-- What a change of a workflow leaves alone of that, it leaves alone of every workflow. -/
theorem workflow_mapWorkflow_eq {f : Workflow → Workflow} {α : Type} {g : Workflow → α}
    (h : g (f (e.workflow w)) = g (e.workflow w)) (v : WorkflowId) :
    g ((e.mapWorkflow w f).workflow v) = g (e.workflow v) := by
  rw [workflow_mapWorkflow]
  split
  · rename_i hv; rw [hv.1]; exact h
  · rfl

theorem step_mapStep_of_ne (h : t ≠ s) : (e.mapStep s f).step t = e.step t := by
  rw [step_mapStep, if_neg fun ht => h ht.1]

theorem workflow_mapWorkflow_of_ne (h : v ≠ w) : (e.mapWorkflow w g).workflow v = e.workflow v := by
  rw [workflow_mapWorkflow, if_neg fun hv => h hv.1]

theorem workflow_mapWorkflow_self (h : e.HasWorkflow w) :
    (e.mapWorkflow w g).workflow w = g (e.workflow w) := by
  rw [workflow_mapWorkflow, if_pos ⟨rfl, h⟩]

theorem step_mapStep_self (h : e.HasStep s) : (e.mapStep s f).step s = f (e.step s) := by
  rw [step_mapStep, if_pos ⟨rfl, h⟩]

theorem queue_mapQueue_self (h : e.HasQueue q) : (e.mapQueue q k).queue q = k (e.queue q) := by
  rw [queue_mapQueue, if_pos ⟨rfl, h⟩]

theorem queue_mapQueue_of_ne (h : p ≠ q) : (e.mapQueue q k).queue p = e.queue p := by
  rw [queue_mapQueue, if_neg fun hp => h hp.1]

/-- A place without a step reads as a blank step. -/
theorem step_of_not_hasStep {s : StepId} (h : ¬e.HasStep s) : e.step s = default := by
  unfold Engine.step
  rw [Array.getD_eq_getD_getElem?, Array.getElem?_eq_none (Nat.not_lt.mp h)]
  rfl

theorem hasStep_of_isDecision {s : StepId} (hs : (e.step s).isDecision = true) : e.HasStep s := by
  apply Classical.byContradiction
  intro hn
  rw [step_of_not_hasStep hn] at hs
  contradiction

/-- A place without a workflow reads as a blank one. -/
theorem workflow_of_not_hasWorkflow {w : WorkflowId} (h : ¬e.HasWorkflow w) : e.workflow w = default := by
  unfold Engine.workflow
  rw [Array.getD_eq_getD_getElem?, Array.getElem?_eq_none (Nat.not_lt.mp h)]
  rfl

/-- A place without a queue reads as an empty one. -/
theorem queue_of_not_hasQueue {q : QueueId} (h : ¬e.HasQueue q) : e.queue q = default := by
  unfold Engine.queue
  rw [Array.getD_eq_getD_getElem?, Array.getElem?_eq_none (Nat.not_lt.mp h)]
  rfl

end Reading

/-! ## Engines that agree -/

section Agreeing

variable {e e' : Engine σ}

theorem step_of_steps (h : e'.steps = e.steps) (s : StepId) : e'.step s = e.step s :=
  congrArg (·.getD s.index default) h

theorem hasStep_of_size (h : e'.steps.size = e.steps.size) (s : StepId) :
    e'.HasStep s ↔ e.HasStep s := by
  unfold HasStep
  rw [h]

theorem hasStep_of_steps (h : e'.steps = e.steps) (s : StepId) : e'.HasStep s ↔ e.HasStep s :=
  hasStep_of_size (congrArg Array.size h) s

theorem workflow_of_workflows (h : e'.workflows = e.workflows) (w : WorkflowId) :
    e'.workflow w = e.workflow w :=
  congrArg (·.getD w.index default) h

theorem hasWorkflow_of_workflows (h : e'.workflows = e.workflows) (w : WorkflowId) :
    e'.HasWorkflow w ↔ e.HasWorkflow w := by
  unfold HasWorkflow
  rw [h]

theorem manager_of_managers (h : e'.managers = e.managers) (m : ManagerId) :
    e'.manager m = e.manager m :=
  congrArg (·.getD m.index default) h

theorem hasManager_of_managers (h : e'.managers = e.managers) (m : ManagerId) :
    e'.HasManager m ↔ e.HasManager m := by
  unfold HasManager
  rw [h]

theorem queue_of_queues (h : e'.queues = e.queues) (q : QueueId) : e'.queue q = e.queue q :=
  congrArg (·.getD q.index default) h

theorem hasQueue_of_queues (h : e'.queues = e.queues) (q : QueueId) : e'.HasQueue q ↔ e.HasQueue q := by
  unfold HasQueue
  rw [h]

variable (hc : e'.core = e.core)
include hc

theorem step_of_core (s : StepId) : e'.step s = e.step s :=
  step_of_steps (congrArg Core.steps hc) s

theorem workflow_of_core (w : WorkflowId) : e'.workflow w = e.workflow w :=
  workflow_of_workflows (congrArg Core.workflows hc) w

theorem queue_of_core (q : QueueId) : e'.queue q = e.queue q :=
  queue_of_queues (congrArg Core.queues hc) q

theorem manager_of_core (m : ManagerId) : e'.manager m = e.manager m :=
  manager_of_managers (congrArg Core.managers hc) m

theorem hasStep_of_core (s : StepId) : e'.HasStep s ↔ e.HasStep s :=
  hasStep_of_steps (congrArg Core.steps hc) s

theorem hasWorkflow_of_core (w : WorkflowId) : e'.HasWorkflow w ↔ e.HasWorkflow w :=
  hasWorkflow_of_workflows (congrArg Core.workflows hc) w

end Agreeing

/-- Engines with one core and one host: what the engine itself does is the same from both. -/
structure Alike (e' e : Engine σ) : Prop where
  core : e'.core = e.core
  host : e'.host = e.host

section Alike

variable {e e' e'' : Engine σ}

theorem alike_refl (e : Engine σ) : Alike e e := ⟨rfl, rfl⟩

theorem Alike.trans (h : Alike e'' e') (h' : Alike e' e) : Alike e'' e :=
  ⟨h.core.trans h'.core, h.host.trans h'.host⟩

theorem alike_aside (e : Engine σ) (j : Array Note) (c : Clock) : Alike (e.aside j c) e := ⟨rfl, rfl⟩

theorem Alike.mapStep (h : Alike e' e) (s : StepId) (f : Step → Step) :
    Alike (e'.mapStep s f) (e.mapStep s f) :=
  ⟨congrArg (fun c : Core => { c with steps := c.steps.modify s.index f }) h.core, h.host⟩

theorem Alike.mapWorkflow (h : Alike e' e) (w : WorkflowId) (f : Workflow → Workflow) :
    Alike (e'.mapWorkflow w f) (e.mapWorkflow w f) :=
  ⟨congrArg (fun c : Core => { c with workflows := c.workflows.modify w.index f }) h.core, h.host⟩

theorem Alike.aside (h : Alike e' e) (j : Array Note) (c : Clock) : Alike (e'.aside j c) e :=
  (alike_aside e' j c).trans h

end Alike

end Engine

end ApprovalFlow
