import ApprovalFlow.Proofs.Operation
import ApprovalFlow.Proofs.Registry

/-!
# What managers do

A manager accepts a workflow by registering it under an id (`accept_ends`), has queued decisions answered
(`decideQueued_ends`), and lets them be reassigned (`reassignQueued_reassigned`). All of this leaves the
register in order, accepting only if the id was free, and spares the workflows that it is not about.
-/

namespace ApprovalFlow.Engine

open Act

variable {σ γ : Type} {m : ManagerId} {members : WorkflowId → Prop}
  {own : WorkflowId → StepId → Prop} {w v : WorkflowId} {s : StepId} {e e' : Engine σ}

/-! ## Answering -/

/-- The step `s` has been given an outcome, and has left the queue if that has completed it. -/
structure Answered (m : ManagerId) (s : StepId) (e e' : Engine σ) : Prop where
  workflows : e'.workflows = e.workflows
  size : e'.steps.size = e.steps.size
  others : ∀ t, t ≠ s → e'.step t = e.step t
  self : Step.Worked (e.step s) (e'.step s)
  queueId : (e'.manager m).queue = (e.manager m).queue
  hasDesk : e'.HasDesk m
  desk : e'.desk m = (e.desk m).keeping fun t => !(t == s && (e'.step s).isCompleted)

theorem answered_of_files {d : Desk} {e₁ : Engine σ} (hw : Worked (fun _ => []) s e e₁)
    (hf : Files m d e₁ e')
    (hd : d = (e.desk m).keeping fun t => !(t == s && (e₁.step s).isCompleted)) : Answered m s e e' where
  workflows := hf.workflows.trans hw.workflows
  size := by rw [hf.steps, hw.size]
  others t ht := (hf.step t).trans (hw.others t ht)
  self := by rw [hf.step]; exact hw.self
  queueId := by rw [hf.queueId, manager_of_managers hw.managers]
  hasDesk := hf.hasDesk
  desk := by rw [hf.desk, hf.step]; exact hd

/-- A queued decision is answered, or nothing changes. -/
theorem decideQueued_ends {h : Hooks σ γ} (hq : h.Quiet) (hd : e.HasDesk m) (o : Outcome)
    (actor : Option Actor) :
    (decideQueued h (e.manager m).queue s o actor).Ends e
      (fun _ e' => s ∈ (e.desk m).queue ∧ Answered m s e e')
      (fun _ e' => e' = e ∨ s ∈ (e.desk m).queue ∧ Answered m s e e') := by
  unfold decideQueued requireQueued
  simp only [ends_bind, ends_get]
  cases hmem : isQueued e (e.manager m).queue s
  case false =>
    rw [Bool.not_false, if_pos rfl, ends_bind]
    unfold numberOf
    rw [ends_bind, ends_get]
    dsimp only
    split <;> exact .inl rfl
  have hs : s ∈ (e.desk m).queue := List.contains_iff_mem.mp hmem
  rw [Bool.not_true, if_neg Bool.false_ne_true, ends_pure, ends_failIf]
  split
  · exact .inl rfl
  refine (resolve_ends s o e).mono ?_ fun _ _ he => .inl he
  rintro _ e₁ ⟨hc, hdec, t, he⟩
  have hw : Worked (fun _ => []) s e e₁ :=
    worked_mapStep (·.given o t) (Step.worked_of_frame hc (Step.frame_given ..)) he
  -- No desk has changed yet, whichever workflow the step is of.
  have hi : Inner (· = s) ⟨0⟩ e e₁ := inner_of_worked rfl hw
  have hd₁ := hi.hasDesk hd
  rw [ends_onlyIf, ← hi.manager m]
  cases hc₁ : (e₁.step s).isCompleted
  case false =>
    rw [if_neg Bool.false_ne_true]
    refine ⟨hs, answered_of_files hw (files_of_core hd₁ rfl) ?_⟩
    rw [hi.desk, hc₁, Desk.keeping_eq_self fun t _ => by rw [Bool.and_false]; rfl]
  case true =>
    rw [if_pos rfl]
    have hk : (e₁.desk m).keeping (· != s) =
        (e.desk m).keeping fun t => !(t == s && (e₁.step s).isCompleted) := by
      rw [hi.desk]
      refine Desk.keeping_congr fun t => ?_
      rw [hc₁, Bool.and_true]
      rfl
    refine (dequeue_ends hq hd₁ ((hi.decisions s).trans hdec)).mono (fun _ e' hf => ?_) fun _ e' hf => ?_
    · exact ⟨hs, answered_of_files hw hf hk⟩
    · exact .inr ⟨hs, answered_of_files hw hf.1 hk⟩

/-! ## The register meanwhile -/

structure Steady (m : ManagerId) (e e' : Engine σ) : Prop where
  workflows : e'.workflows = e.workflows
  size : e'.steps.size = e.steps.size
  targets : ∀ t, e'.targets t = e.targets t
  decisions : ∀ t, (e'.step t).isDecision = (e.step t).isDecision
  bindings : ∀ t, (e'.step t).workflowId = (e.step t).workflowId
  hasDesk : e'.HasDesk m
  running : (e'.desk m).running = (e.desk m).running
  finished : (e'.desk m).finished = (e.desk m).finished
  queue : ∀ t ∈ (e'.desk m).queue, t ∈ (e.desk m).queue

section Steady

variable (hs : Steady m e e')
include hs

theorem Steady.workflow (v : WorkflowId) : e'.workflow v = e.workflow v :=
  workflow_of_workflows hs.workflows v

theorem Steady.belongs (v : WorkflowId) (t : StepId) : e'.belongs v t = e.belongs v t := by
  unfold Engine.belongs
  rw [hs.bindings, hs.workflow]

theorem Steady.running? (id : Int) : running? e' m id = running? e m id := by
  rw [running?_eq, running?_eq, hs.running]

theorem Registry.of_steady (hr : Registry m members own e) : Registry m members own e' where
  hasDesk := hs.hasDesk
  disjoint := hr.disjoint
  member v hv := (hr.member v hv).stay (hasWorkflow_of_workflows hs.workflows v)
    (hasStep_of_size hs.size) hs.targets (by rw [hs.workflow]) fun hb => by rw [hs.belongs]; exact hb
  listens v hv := by rw [hs.workflow]; exact hr.listens v hv
  registered id v hid := by
    rw [hs.running?] at hid
    rw [hs.workflow]
    exact hr.registered id v hid
  live v hv hman hlive := by
    rw [hs.workflow] at hman hlive ⊢
    rw [hs.running?]
    exact hr.live v hv hman hlive
  keys := by rw [hs.running]; exact hr.keys
  queued t ht := by
    obtain ⟨hd, v, hv, hrun, hown, hb⟩ := hr.queued t (hs.queue t ht)
    refine ⟨(hs.decisions t).trans hd, v, hv, ?_, hown, ?_⟩
    · rw [hs.running?, hs.workflow]; exact hrun
    · rw [hs.belongs]; exact hb
  finished v hv := by
    rw [hs.finished] at hv
    rw [hs.workflow]
    exact hr.finished v hv

end Steady

section Answered

variable (ha : Answered m s e e')
include ha

theorem Answered.frame (t : StepId) : (e'.step t).frame = (e.step t).frame := by
  by_cases h : t = s
  · rw [h]; exact ha.self.frame
  · rw [ha.others t h]

theorem Answered.steady : Steady m e e' where
  workflows := ha.workflows
  size := ha.size
  targets t := targets_of_successors (Step.successors_of_frame (ha.frame t))
  decisions t := Step.isDecision_of_frame (ha.frame t)
  bindings t := Step.workflowId_of_frame (ha.frame t)
  hasDesk := ha.hasDesk
  running := by rw [ha.desk]; rfl
  finished := by rw [ha.desk]; rfl
  queue t ht := by
    rw [ha.desk] at ht
    exact (List.mem_filter.mp ht).1

theorem Orderly.of_answered (hr : Orderly m members own e) (hs : s ∈ (e.desk m).queue) :
    Orderly m members own e' where
  toRegistry := hr.toRegistry.of_steady ha.steady
  newcomers v hv := by
    intro hst
    rw [ha.steady.workflow] at hst ⊢
    obtain ⟨hobs, hcur, hun⟩ := hr.newcomers v hv hst
    refine ⟨hobs, hcur, ?_⟩
    -- The answered step belongs to a workflow that has a manager.
    obtain ⟨-, u, hu, hrun, hown, -⟩ := hr.queued s hs
    have hne : (e.workflow v).current ≠ s := by
      intro h
      by_cases huv : u = v
      · subst huv
        exact hobs.not_managed (hr.registered _ u hrun).2.1
      · exact hr.disjoint u v hu hv huv s hown (h ▸ (hr.member v hv).current)
    rw [ha.others _ hne]
    exact hun

theorem Answered.spares (hr : Registry m members own e) (hv : members v) (hw : members w)
    (hown : own w s) (hne : w ≠ v) : Spares m own v e e' where
  running id hid := (ha.steady.running? id).trans hid
  finished := by rw [ha.desk]; rfl
  queue t ht := by
    have hts : t ≠ s := by
      rintro rfl
      exact hr.disjoint w v hw hv hne t hown ht
    rw [ha.desk, Desk.mem_keeping, beq_eq_false_iff_ne.mpr hts]
    exact and_iff_left rfl

end Answered

/-! ## Reassigning -/

structure Reassigned (m : ManagerId) (e e' : Engine σ) : Prop where
  workflows : e'.workflows = e.workflows
  size : e'.steps.size = e.steps.size
  steps : ∀ t, ∃ actor, e'.step t = { e.step t with actor }
  queueId : (e'.manager m).queue = (e.manager m).queue
  hasDesk : e'.HasDesk m
  desk : e'.desk m = e.desk m

theorem reassigned_refl (hd : e.HasDesk m) : Reassigned m e e :=
  ⟨rfl, rfl, fun t => ⟨(e.step t).actor, rfl⟩, rfl, hd, rfl⟩

theorem Reassigned.core {e'' : Engine σ} (hr : Reassigned m e e') (hc : e''.core = e'.core) :
    Reassigned m e e'' := by
  have hf := files_of_core hr.hasDesk hc
  refine ⟨hf.workflows.trans hr.workflows, ?_, fun t => ?_, hf.queueId.trans hr.queueId, hf.hasDesk,
    hf.desk.trans hr.desk⟩
  · rw [hf.steps]; exact hr.size
  · rw [hf.step]; exact hr.steps t

theorem reassigned_mapStep (hd : e.HasDesk m) (actor : Option Actor) :
    Reassigned m e (e.mapStep s ({ · with actor })) where
  workflows := rfl
  size := Array.size_modify ..
  steps t := by
    rw [step_mapStep]
    split
    · exact ⟨actor, rfl⟩
    · exact ⟨(e.step t).actor, rfl⟩
  queueId := rfl
  hasDesk := ⟨hd.manager, hd.queue⟩
  desk := rfl

theorem reassign_reassigned (hd : e.HasDesk m) (actor : Option Actor) :
    (reassign s actor).Ends e (fun _ => Reassigned m e) (fun _ => Reassigned m e) := by
  refine (reassign_ends s actor e).mono (fun _ e' he => ?_) fun _ e' he => ?_
  · exact (reassigned_mapStep hd actor).core he.core
  · rw [he]; exact reassigned_refl hd

theorem reassignQueued_reassigned {h : Hooks σ γ} (hq : h.Quiet) (hd : e.HasDesk m) (q : QueueId)
    (actor : Option Actor) :
    (reassignQueued h q s actor).Ends e (fun _ => Reassigned m e) (fun _ => Reassigned m e) := by
  have hsame := reassigned_refl hd
  unfold reassignQueued requireQueued
  simp only [ends_bind, ends_get]
  cases isQueued e q s
  case false =>
    rw [Bool.not_false, if_pos rfl, ends_bind]
    unfold numberOf
    rw [ends_bind, ends_get]
    dsimp only
    split <;> exact hsame
  rw [Bool.not_true, if_neg Bool.false_ne_true, ends_pure]
  refine (reassign_reassigned hd actor).mono (fun _ e₁ h₁ => ?_) fun _ _ h₁ => h₁
  exact (emitQueue_ends hq q s _ e₁).mono (fun _ _ hc => h₁.core hc) fun _ _ hc => h₁.core hc.1

section Reassigned

variable (ha : Reassigned m e e')
include ha

theorem Reassigned.steady : Steady m e e' where
  workflows := ha.workflows
  size := ha.size
  targets t := by
    obtain ⟨actor, h⟩ := ha.steps t
    exact targets_of_successors (by rw [h])
  decisions t := by
    obtain ⟨actor, h⟩ := ha.steps t
    rw [h]; rfl
  bindings t := by
    obtain ⟨actor, h⟩ := ha.steps t
    rw [h]
  hasDesk := ha.hasDesk
  running := by rw [ha.desk]
  finished := by rw [ha.desk]
  queue t ht := ha.desk ▸ ht

theorem Orderly.of_reassigned (hr : Orderly m members own e) : Orderly m members own e' where
  toRegistry := hr.toRegistry.of_steady ha.steady
  newcomers v hv := by
    intro hst
    rw [ha.steady.workflow] at hst ⊢
    obtain ⟨hobs, hcur, hun⟩ := hr.newcomers v hv hst
    obtain ⟨actor, h⟩ := ha.steps (e.workflow v).current
    refine ⟨hobs, hcur, ?_⟩
    rw [h]
    exact hun

end Reassigned

/-! ## Accepting -/

structure Accepted (m : ManagerId) (w : WorkflowId) (n : Int) (e e' : Engine σ) : Prop where
  others : ∀ v, v ≠ w → e'.workflow v = e.workflow v
  self : e'.workflow w =
    { e.workflow w with id := n, listeners := (e.workflow w).listeners ++ [.manager m] }
  hasWorkflow : ∀ v, e'.HasWorkflow v ↔ e.HasWorkflow v
  hasStep : ∀ t, e'.HasStep t ↔ e.HasStep t
  steps : ∀ t, t ≠ (e.workflow w).first → e'.step t = e.step t
  targets : ∀ t, e'.targets t = e.targets t
  decisions : ∀ t, (e'.step t).isDecision = (e.step t).isDecision
  completed : ∀ t, (e'.step t).isCompleted = (e.step t).isCompleted
  bound : e.belongs w (e.workflow w).first = true → e'.belongs w (e.workflow w).first = true
  lodged : ∀ t, Lodged w e t → Lodged w e' t
  queueId : (e'.manager m).queue = (e.manager m).queue
  hasDesk : e'.HasDesk m
  id : (e.workflow w).id = 0 ∧ n = (e.desk m).nextId ∧ (e'.desk m).nextId = (e.desk m).nextId + 1 ∨
    (e.workflow w).id ≠ 0 ∧ n = (e.workflow w).id ∧ (e'.desk m).nextId = (e.desk m).nextId ∧
      running? e m n = none
  running : (e'.desk m).running = Entries.put n w (e.desk m).running
  finished : (e'.desk m).finished = (e.desk m).finished
  queue : (e'.desk m).queue = (e.desk m).queue

/-- The manager counts on to `k` and registers the workflow `w` under `n`, listening to it. The first step
of the workflow is changed by `f`. -/
def enrolled (e : Engine σ) (m : ManagerId) (w : WorkflowId) (n : Int) (k : Nat) (f : Step → Step) :
    Engine σ :=
  ((e.mapManager m fun mg =>
    { mg with nextId := k, running := Entries.put n w mg.running }).mapWorkflow w fun wf =>
      { wf with id := n, listeners := wf.listeners ++ [.manager m] }).mapStep (e.workflow w).first f

section Enrolled

variable (n : Int) (k : Nat) (f : Step → Step)

theorem workflow_enrolled_self (hw : e.HasWorkflow w) : (e.enrolled m w n k f).workflow w =
    { e.workflow w with id := n, listeners := (e.workflow w).listeners ++ [.manager m] } := by
  unfold enrolled
  rw [workflow_mapStep, workflow_mapWorkflow_self (e := e.mapManager m _) _ hw, workflow_mapManager]

theorem workflow_enrolled_of_ne (hv : v ≠ w) : (e.enrolled m w n k f).workflow v = e.workflow v := by
  unfold enrolled
  rw [workflow_mapStep, workflow_mapWorkflow_of_ne (e := e.mapManager m _) v _ hv, workflow_mapManager]

theorem hasWorkflow_enrolled : (e.enrolled m w n k f).HasWorkflow v ↔ e.HasWorkflow v :=
  hasWorkflow_mapWorkflow (e.mapManager m _) w v _

theorem hasStep_enrolled : (e.enrolled m w n k f).HasStep s ↔ e.HasStep s :=
  hasStep_mapStep ((e.mapManager m _).mapWorkflow w _) _ s f

theorem step_enrolled_first (hs : e.HasStep (e.workflow w).first) :
    (e.enrolled m w n k f).step (e.workflow w).first = f (e.step (e.workflow w).first) :=
  step_mapStep_self (e := (e.mapManager m _).mapWorkflow w _) f hs

theorem step_enrolled_of_ne (hs : s ≠ (e.workflow w).first) :
    (e.enrolled m w n k f).step s = e.step s :=
  step_mapStep_of_ne (e := (e.mapManager m _).mapWorkflow w _) s f hs

theorem manager_enrolled (hm : e.HasManager m) : (e.enrolled m w n k f).manager m =
    { e.manager m with nextId := k, running := Entries.put n w (e.manager m).running } := by
  show (e.mapManager m _).manager m = _
  rw [manager_mapManager, if_pos ⟨rfl, hm⟩]

theorem desk_enrolled (hm : e.HasManager m) : (e.enrolled m w n k f).desk m =
    ⟨k, Entries.put n w (e.desk m).running, (e.desk m).finished, (e.desk m).queue⟩ := by
  unfold Engine.desk
  rw [manager_enrolled n k f hm]
  rfl

theorem hasDesk_enrolled (hd : e.HasDesk m) : (e.enrolled m w n k f).HasDesk m where
  manager := (hasManager_mapManager ..).mpr hd.manager
  queue := by
    rw [manager_enrolled n k f hd.manager]
    exact hd.queue

end Enrolled

theorem accepted_of_core {n : Int} {k : Nat} {f : Step → Step} (hd : e.HasDesk m) (hw : e.HasWorkflow w)
    (hsucc : ∀ st, (f st).successors = st.successors) (hdec : ∀ st, (f st).decision = st.decision)
    (hstate : ∀ st, (f st).state = st.state)
    (hbound : e.belongs w (e.workflow w).first = true →
      (f (e.step (e.workflow w).first)).workflowId = some n ∧ e.HasStep (e.workflow w).first)
    (hctx : Lodged w e (e.workflow w).first →
      ∀ c, (f (e.step (e.workflow w).first)).context = some c → c = (e.workflow w).context)
    (hid : (e.workflow w).id = 0 ∧ n = (e.desk m).nextId ∧ k = (e.desk m).nextId + 1 ∨
      (e.workflow w).id ≠ 0 ∧ n = (e.workflow w).id ∧ k = (e.desk m).nextId ∧ running? e m n = none)
    (hc : e'.core = (e.enrolled m w n k f).core) : Accepted m w n e e' := by
  have hself := (workflow_of_core hc w).trans (workflow_enrolled_self n k f hw)
  have hstep := step_of_core hc
  have hdesk : e'.desk m = ⟨k, Entries.put n w (e.desk m).running, (e.desk m).finished,
      (e.desk m).queue⟩ := by
    rw [← desk_enrolled n k f hd.manager]
    unfold Engine.desk
    rw [manager_of_core hc, queue_of_core hc]
  -- Whatever is asked of the engine is asked of its core, which enrolling has made.
  exact
    { others := fun v hv => (workflow_of_core hc v).trans (workflow_enrolled_of_ne n k f hv)
      self := hself
      hasWorkflow := fun v => (hasWorkflow_of_core hc v).trans (hasWorkflow_enrolled n k f)
      hasStep := fun t => (hasStep_of_core hc t).trans (hasStep_enrolled n k f)
      steps := fun t ht => (hstep t).trans (step_enrolled_of_ne n k f ht)
      targets := fun t => by
        refine targets_of_successors ?_
        rw [hstep]
        exact step_mapStep_eq (hsucc _) t
      decisions := fun t => by
        rw [hstep]
        exact step_mapStep_eq (g := Step.isDecision) (congrArg Option.isSome (hdec _)) t
      completed := fun t => by
        rw [hstep]
        exact step_mapStep_eq (g := Step.isCompleted) (congrArg (· == StepState.completed) (hstate _)) t
      bound := fun hb => by
        obtain ⟨hn, hs⟩ := hbound hb
        rw [belongs_iff, hstep, step_enrolled_first n k f hs, hself]
        exact hn
      lodged := fun t hl c hcon => by
        rw [hself]
        rw [hstep] at hcon
        exact step_mapStep_keeps (p := fun st => ∀ c, st.context = some c → c = (e.workflow w).context)
          hctx hl c hcon
      queueId := by rw [manager_of_core hc, manager_enrolled n k f hd.manager]
      hasDesk := (hasDesk_enrolled n k f hd).same (congrArg Core.managers hc) (congrArg Core.queues hc)
      id := by rw [hdesk]; exact hid
      running := by rw [hdesk]
      finished := by rw [hdesk]
      queue := by rw [hdesk] }

theorem Accepted.not_refused {n : Int} (ha : Accepted m w n e e') (hs : (e.workflow w).state = .created) :
    ¬e.Refused m w := by
  rintro (h | ⟨hid, hrun⟩)
  · exact h hs
  · rcases ha.id with ⟨h, -⟩ | ⟨-, rfl, -, hnone⟩
    · exact hid h
    · rw [hnone] at hrun
      contradiction

theorem ends_register {Q : Unit → Engine σ → Prop} {F : Failure → Engine σ → Prop}
    (h : ∀ e', e'.core = ((e.mapManager m fun mg =>
      { mg with running := Entries.put (e.workflow w).id w mg.running }).mapWorkflow w fun wf =>
        { wf with listeners := wf.listeners ++ [.manager m] }).core → Q () e') :
    (register m w).Ends e Q F := by
  unfold register listenTo
  simp only [ends_bind, ends_get, ends_updateManager, ends_updateWorkflow, ends_note]
  exact h _ rfl

/-- A workflow that has not started is accepted, unless it brings an id that is in use. -/
theorem accept_ends (hd : e.HasDesk m) (hw : e.HasWorkflow w) (hs : e.HasStep (e.workflow w).first)
    (hst : (e.workflow w).state = .created) (hun : (e.step (e.workflow w).first).isStarted = false) :
    (accept m w >>= fun _ => register m w).Ends e
      (fun _ e' => ∃ n, Accepted m w n e e') (fun _ e' => e' = e ∧ e.Refused m w) := by
  rw [ends_bind]
  unfold accept
  simp only [ends_bind, ends_get]
  by_cases hid : (e.workflow w).id = 0
  · -- The manager gives the workflow its next id, and the first step is bound to that.
    rw [if_pos hid, ends_bind]
    unfold takeId assignId
    simp only [ends_bind, ends_get, ends_updateManager, ends_pure, ends_failIf, workflow_mapManager, hst]
    rw [if_neg (by decide), ends_updateWorkflow, ends_bindStep, step_mapWorkflow, step_mapManager, hun,
      Bool.false_and, if_neg Bool.false_ne_true]
    refine ends_register fun e' hc => ⟨(e.manager m).nextId, ?_⟩
    rw [workflow_mapStep, workflow_mapWorkflow_self (e := e.mapManager m _) _ hw] at hc
    dsimp only at hc
    refine accepted_of_core (f := fun st => { st with
        workflowId := some ((e.manager m).nextId : Int), context := some (e.workflow w).context })
      hd hw (fun _ => rfl) (fun _ => rfl) (fun _ => rfl) (fun _ => ⟨rfl, hs⟩)
      (fun _ _ hc => (Option.some.inj hc).symm) (.inl ⟨hid, rfl, rfl⟩) ?_
    -- The changes are on different things, so they can be put in the order of `accepted_of_core`.
    rw [hc, mapManager_mapStep, mapManager_mapWorkflow, mapManager_mapManager, ← mapStep_mapWorkflow,
      mapWorkflow_mapWorkflow]
    rfl
  · rw [if_neg hid, ends_failIf]
    cases hcon : Entries.contains (e.manager m).running (e.workflow w).id
    case true => exact ⟨rfl, .inr ⟨hid, hcon⟩⟩
    rw [if_neg Bool.false_ne_true]
    refine ends_register fun e' hc => ⟨(e.workflow w).id, ?_⟩
    have hnone : running? e m (e.workflow w).id = none := by
      unfold Entries.contains at hcon
      unfold running?
      exact Option.not_isSome_iff_eq_none.mp (by rw [hcon]; exact Bool.false_ne_true)
    -- The workflow keeps its id, and no step is bound anew.
    refine accepted_of_core (f := id) hd hw (fun _ => rfl) (fun _ => rfl) (fun _ => rfl) (fun hb => ?_)
      (fun hl => hl) (.inr ⟨hid, rfl, rfl, hnone⟩) ?_
    · exact ⟨belongs_iff.mp hb, hs⟩
    · unfold enrolled
      rw [hc, mapStep_eq_self rfl]
      rw [mapManager_congr (e := e) (b := fun mg => { mg with
        nextId := (e.desk m).nextId, running := Entries.put (e.workflow w).id w mg.running }) rfl]
      rw [mapWorkflow_congr (b := fun wf =>
        { wf with id := (e.workflow w).id, listeners := wf.listeners ++ [.manager m] }) rfl]

section Accepted

variable {n : Int} (ha : Accepted m w n e e')
include ha

theorem Accepted.running? (id : Int) :
    running? e' m id = if n = id then some w else running? e m id := by
  rw [running?_eq, running?_eq, ha.running, Entries.get?_put]

theorem Accepted.step_of_ne (hr : Registry m members own e) (hw : members w) (hv : members v)
    (hfirst : own w (e.workflow w).first) (hne : v ≠ w) (hs : own v s) : e'.step s = e.step s := by
  refine ha.steps s ?_
  rintro rfl
  exact hr.disjoint w v hw hv hne.symm _ hfirst hs

theorem Accepted.managed (hobs : (e.workflow w).Observed) : (e'.workflow w).Managed m := by
  obtain ⟨obs, hobs⟩ := hobs
  exact ⟨obs, by rw [ha.self, ← hobs]⟩

/-- The accepted workflow is ready to be driven, whatever its id. -/
theorem Accepted.ready (hr : Registry m members own e) (hw : members w)
    (hobs : (e.workflow w).Observed) (hcur : (e.workflow w).current = (e.workflow w).first) :
    Ready m (own w) w e' where
  member := by
    have hm := hr.member w hw
    refine hm.stay (ha.hasWorkflow w) ha.hasStep ha.targets (by rw [ha.self]) ?_
    rw [hcur]
    exact ha.bound
  hasDesk := ha.hasDesk
  listens := .inr (ha.managed hobs)
  registered _ _ := by
    rw [ha.running?, ha.self, if_pos rfl]
  decisions s hs := by
    rw [ha.queue] at hs
    rw [ha.decisions]
    exact (hr.queued s hs).1

/-- The other workflows are bound to their steps as before. -/
theorem Accepted.belongs_of_ne (hr : Registry m members own e) (hw : members w) (hv : members v)
    (hfirst : own w (e.workflow w).first) (hne : v ≠ w) (hs : own v s) :
    e'.belongs v s = e.belongs v s := by
  unfold Engine.belongs
  rw [ha.step_of_ne hr hw hv hfirst hne hs, ha.others v hne]

omit ha in
/-- What is registered has a manager, which a workflow that none listens to has not. -/
theorem Registry.ne_of_observed (hr : Registry m members own e) (hobs : (e.workflow w).Observed) {id : Int}
    (hid : ApprovalFlow.Engine.running? e m id = some v) : v ≠ w := by
  rintro rfl
  exact hobs.not_managed (hr.registered id v hid).2.1

omit ha in
/-- What is registered is not under a free id. -/
theorem ne_of_registered {id : Int} (hfree : ApprovalFlow.Engine.running? e m n = none)
    (hid : ApprovalFlow.Engine.running? e m id = some v) : n ≠ id := by
  rintro rfl
  rw [hid] at hfree
  contradiction

/-- Accepting a workflow under a free id leaves the register in order. -/
theorem Registry.of_accepted (hr : Registry m members own e) (hw : members w)
    (hobs : (e.workflow w).Observed) (hcur : (e.workflow w).current = (e.workflow w).first)
    (hfree : ApprovalFlow.Engine.running? e m n = none) : Registry m members own e' := by
  have hready := ha.ready hr hw hobs hcur
  have hman := ha.managed hobs
  have hfirst : own w (e.workflow w).first := hcur ▸ (hr.member w hw).current
  -- For each field, the accepted workflow has it from `hready`, and the others have it as before.
  refine
    { hasDesk := ha.hasDesk
      disjoint := hr.disjoint
      member := fun v hv => ?member
      listens := fun v hv => ?listens
      registered := fun id v hid => ?registered
      live := fun v hv hm hlive => ?live
      keys := by rw [ha.running]; exact Entries.nodup_keys_put hr.keys n w
      queued := fun s hs => ?queued
      finished := fun v hv => ?finished }
  case member =>
    by_cases hne : v = w
    · subst hne
      exact hready.member
    · have hm := hr.member v hv
      refine hm.stay (ha.hasWorkflow v) ha.hasStep ha.targets (by rw [ha.others v hne]) fun hb => ?_
      rw [ha.belongs_of_ne hr hw hv hfirst hne hm.current]
      exact hb
  case listens =>
    by_cases hne : v = w
    · subst hne
      exact .inr hman
    · rw [ha.others v hne]
      exact hr.listens v hv
  case registered =>
    rw [ha.running?] at hid
    split at hid
    · rename_i hn
      rw [← Option.some.inj hid]
      exact ⟨hw, hman, by rw [ha.self]; exact hn⟩
    · rw [ha.others v (hr.ne_of_observed hobs hid)]
      exact hr.registered id v hid
  case live =>
    by_cases hne : v = w
    · subst hne
      rw [ha.running?, ha.self, if_pos rfl]
    · rw [ha.others v hne] at hm hlive ⊢
      have hrun := hr.live v hv hm hlive
      rw [ha.running?, if_neg (ne_of_registered hfree hrun)]
      exact hrun
  case queued =>
    rw [ha.queue] at hs
    obtain ⟨hd, v, hv, hrun, hown, hb⟩ := hr.queued s hs
    have hne := hr.ne_of_observed hobs hrun
    refine ⟨by rw [ha.decisions]; exact hd, v, hv, ?_, hown, ?_⟩
    · rw [ha.others v hne, ha.running?, if_neg (ne_of_registered hfree hrun)]
      exact hrun
    · rw [ha.belongs_of_ne hr hw hv hfirst hne hown]
      exact hb
  case finished =>
    rw [ha.finished] at hv
    obtain ⟨hmem, hm, hover⟩ := hr.finished v hv
    have hne : v ≠ w := by
      rintro rfl
      exact hobs.not_managed hm
    rw [ha.others v hne]
    exact ⟨hmem, hm, hover⟩

theorem Accepted.newcomers (hr : Orderly m members own e) (hw : members w)
    (hcur : (e.workflow w).current = (e.workflow w).first) (v : WorkflowId) (hv : members v)
    (hne : v ≠ w) : e'.Newcomer v := by
  intro hst
  rw [ha.others v hne] at hst ⊢
  have hfirst : own w (e.workflow w).first := hcur ▸ (hr.member w hw).current
  rw [ha.step_of_ne hr.toRegistry hw hv hfirst hne (hr.member v hv).current]
  exact hr.newcomers v hv hst

/-- Accepting a workflow under a free id spares the others. -/
theorem Accepted.spares (hfree : ApprovalFlow.Engine.running? e m n = none) :
    Spares m own v e e' where
  running id hid := by
    rw [ha.running?, if_neg (ne_of_registered hfree hid)]
    exact hid
  finished := by rw [ha.finished]
  queue s _ := by rw [ha.queue]

end Accepted

end ApprovalFlow.Engine
