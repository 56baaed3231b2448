import ApprovalFlow.Engine.Traversal
import ApprovalFlow.Proofs.Steps

/-!
# Work on a step

Hooks are quiet if they call no operation of the engine. Running a step with quiet hooks then changes that
step alone (`runStep_worked`), and telling listeners changes no step and no workflow (`emit_told`). What the
hooks remember of the steps that they were run for is followed by way of `Hooks.Logs`.
-/

namespace ApprovalFlow

open Act

variable {σ γ : Type}

def EventKind.isOfQueue : EventKind → Bool
  | queued _ => true
  | dequeued _ => true
  | reassigned .. => true
  | _ => false

/-- Hooks that call no operation of the engine. They may do with their own host what they like, and
fail. -/
structure Hooks.Quiet (h : Hooks σ γ) : Prop where
  starting : ∀ s, (h.starting s).Always fun e e' => e'.core = e.core
  execute : ∀ s c, (h.execute s c).Always fun e e' => e'.core = e.core
  present : ∀ s c, (h.present s c).Always fun e e' => e'.core = e.core
  observe : ∀ l event, (h.observe l event).Always fun e e' => e'.core = e.core

def Engine.Adds (seen : σ → List StepId) (new : StepId → Prop) (e e' : Engine σ) : Prop :=
  ∀ t ∈ seen e'.host, t ∈ seen e.host ∨ new t

/-- Hooks by which `seen` is a log of the steps that were executed: nothing comes into it but a step
while it is being executed. -/
structure Hooks.Logs (h : Hooks σ γ) (seen : σ → List StepId) : Prop where
  starting : ∀ s, (h.starting s).Always (Engine.Adds seen fun _ => False)
  execute : ∀ s c, (h.execute s c).Always (Engine.Adds seen (· = s))
  present : ∀ s c, (h.present s c).Always (Engine.Adds seen (· = s))
  observe : ∀ l event, (h.observe l event).Always (Engine.Adds seen fun _ => False)

theorem Hooks.logs_nil (h : Hooks σ γ) : h.Logs fun _ => [] := by
  constructor <;> intros <;> intro _ t ht <;> cases ht

namespace Engine

structure Worked (seen : σ → List StepId) (s : StepId) (e e' : Engine σ) : Prop where
  workflows : e'.workflows = e.workflows
  queues : e'.queues = e.queues
  managers : e'.managers = e.managers
  size : e'.steps.size = e.steps.size
  others : ∀ t, t ≠ s → e'.step t = e.step t
  self : Step.Worked (e.step s) (e'.step s)
  adds : Adds seen (· = s) e e'

structure Told (seen : σ → List StepId) (e e' : Engine σ) : Prop where
  steps : e'.steps = e.steps
  workflows : e'.workflows = e.workflows
  adds : Adds seen (fun _ => False) e e'

section Preorders

variable {seen : σ → List StepId} {s : StepId} {e e' e'' : Engine σ}

theorem adds_refl (new : StepId → Prop) (e : Engine σ) : Adds seen new e e := fun _ h => .inl h

theorem Adds.trans {new : StepId → Prop} (h : Adds seen new e e') (h' : Adds seen new e' e'') :
    Adds seen new e e'' := by
  intro t ht
  rcases h' t ht with ht | ht
  · exact h t ht
  · exact .inr ht

theorem Adds.mono {new new' : StepId → Prop} (h : Adds seen new e e') (hn : ∀ t, new t → new' t) :
    Adds seen new' e e' := fun t ht => (h t ht).imp_right (hn t)

theorem adds_of_host {new : StepId → Prop} (h : e'.host = e.host) : Adds seen new e e' := by
  intro t ht
  rw [h] at ht
  exact .inl ht

instance : IsPreorder (Engine σ) (Worked seen s) where
  refl e := ⟨rfl, rfl, rfl, rfl, fun _ _ => rfl, Step.worked_refl _, adds_refl _ e⟩
  trans _ _ _ h h' :=
    { workflows := h'.workflows.trans h.workflows
      queues := h'.queues.trans h.queues
      managers := h'.managers.trans h.managers
      size := h'.size.trans h.size
      others := fun t ht => (h'.others t ht).trans (h.others t ht)
      self := Step.worked_trans h.self h'.self
      adds := h.adds.trans h'.adds }

instance : IsPreorder (Engine σ) (Told seen) where
  refl e := ⟨rfl, rfl, adds_refl _ e⟩
  trans _ _ _ h h' :=
    ⟨h'.steps.trans h.steps, h'.workflows.trans h.workflows, h.adds.trans h'.adds⟩

theorem worked_of_core (hc : e'.core = e.core) (ha : Adds seen (· = s) e e') : Worked seen s e e' where
  workflows := congrArg Core.workflows hc
  queues := congrArg Core.queues hc
  managers := congrArg Core.managers hc
  size := congrArg (·.steps.size) hc
  others t _ := step_of_core hc t
  self := by rw [step_of_core hc s]; exact Step.worked_refl _
  adds := ha

theorem worked_mapStep (f : Step → Step) (h : Step.Worked (e.step s) (f (e.step s)))
    (ha : e'.Alike (e.mapStep s f)) : Worked seen s e e' where
  workflows := congrArg Core.workflows ha.core
  queues := congrArg Core.queues ha.core
  managers := congrArg Core.managers ha.core
  size := (congrArg (·.steps.size) ha.core).trans (Array.size_modify ..)
  others t ht := (step_of_core ha.core t).trans (step_mapStep_of_ne t f ht)
  self := by rw [step_of_core ha.core s]; exact rel_step_mapStep s f h
  adds := adds_of_host ha.host

theorem told_of_core (hc : e'.core = e.core) (ha : Adds seen (fun _ => False) e e') : Told seen e e' :=
  ⟨congrArg Core.steps hc, congrArg Core.workflows hc, ha⟩

theorem Worked.workflow (h : Worked seen s e e') (w : WorkflowId) : e'.workflow w = e.workflow w :=
  workflow_of_workflows h.workflows w

theorem Worked.hasStep (h : Worked seen s e e') (t : StepId) : e'.HasStep t ↔ e.HasStep t :=
  hasStep_of_size h.size t

theorem Worked.hasWorkflow (h : Worked seen s e e') (w : WorkflowId) :
    e'.HasWorkflow w ↔ e.HasWorkflow w :=
  hasWorkflow_of_workflows h.workflows w

/-- Work leaves the frame of every step alone. -/
theorem Worked.frame (h : Worked seen s e e') (t : StepId) : (e'.step t).frame = (e.step t).frame := by
  by_cases ht : t = s
  · rw [ht]; exact h.self.frame
  · rw [h.others t ht]

end Preorders

/-! ## Running a step -/

/-- What a failure leads to still holds after it has been noted on the step. -/
theorem ends_guarding {α : Type} {e : Engine σ} {w : WorkflowId} {s : StepId} {m : Act σ α}
    {Q : α → Engine σ → Prop} {F : Failure → Engine σ → Prop} (hm : m.Ends e Q F)
    (hF : ∀ x e', F x e' → ∀ text e'',
      e''.Alike (e'.mapStep s fun st => { st with errors := st.errors ++ [text] }) →
        e''.clock = e'.clock → F x e'') :
    (guarding w s m).Ends e Q F := by
  unfold guarding
  rw [ends_tryCatch]
  refine hm.mono (fun _ _ hq => hq) fun x e' hx => ?_
  cases x.businessText? with
  | none => exact hx
  | some text =>
    dsimp only
    unfold addError
    rw [ends_bind, ends_updateStep, ends_bind, ends_get, ends_bind, ends_note, ends_throw]
    exact hF x e' hx text _ (alike_aside _ _ _) rfl

section Running

variable {h : Hooks σ γ} {R : Engine σ → Engine σ → Prop} [IsPreorder (Engine σ) R] {s : StepId}
  (hwork : ∀ {e e' : Engine σ} (f : Step → Step), Step.Worked (e.step s) (f (e.step s)) →
    e'.Alike (e.mapStep s f) → R e e')
include hwork

omit [IsPreorder (Engine σ) R] in
theorem work_alike {e e' : Engine σ} (ha : e'.Alike e) : R e e' := by
  refine hwork id (Step.worked_refl _) ?_
  rw [mapStep_eq_self rfl]
  exact ha

omit [IsPreorder (Engine σ) R] in
theorem always_worked_note {logger : String} {level : Logging.Level} {text : String}
    {extras : Entries String Value} : (note logger level text extras : Act σ Unit).Always R :=
  always_modify fun _ => work_alike hwork ⟨rfl, rfl⟩

omit [IsPreorder (Engine σ) R] in
theorem always_updateStep {f : Step → Step} (hf : ∀ st, Step.Worked st (f st)) :
    (updateStep s f : Act σ Unit).Always R :=
  always_modify fun e => hwork f (hf (e.step s)) (alike_refl (e.mapStep s f))

theorem always_moveStep (next : StepState) : (moveStep s next : Act σ Unit).Always R := by
  refine always_of_ends fun e => (ends_moveStep s next).mpr ?_
  cases ha : (e.step s).state.allows next
  case false => exact refl e
  exact hwork _ (Step.worked_of_frame (Step.not_isCompleted_of_allows ha) rfl) (alike_refl _)

omit [IsPreorder (Engine σ) R] in
theorem always_readClock : (readClock : Act σ Instant).Always R :=
  always_modifyGet fun _ => work_alike hwork ⟨rfl, rfl⟩

theorem always_startStep : (startStep s : Act σ Unit).Always R := by
  refine always_get.bind fun _ => (always_failIf _ _).bind fun _ =>
    (always_moveStep hwork .started).bind fun _ => (always_readClock hwork).bind fun t => ?_
  refine Always.bind (always_updateStep hwork fun st => ?_) fun _ => always_worked_note hwork
  exact Step.worked_of_same rfl rfl rfl

theorem always_setOutcome (o : Outcome) : (setOutcome s o : Act σ Unit).Always R := by
  refine always_of_ends fun e => (setOutcome_ends s o e).mono ?_ ?_
  · rintro _ e' ⟨hc, t, he⟩
    exact hwork (·.given o t) (Step.worked_of_frame hc (Step.frame_given ..)) he
  · rintro _ _ ⟨rfl, -⟩
    exact refl _

/-- Starting a step does what the hook does before, apart from work on the step. -/
theorem always_start (hs : (h.starting s).Always R) : (start h s).Always R :=
  hs.bind fun _ => always_get.bind fun _ => (always_failIf _ _).bind fun _ => always_startStep hwork

theorem always_presentDecision {context : γ} (hp : (h.present s context).Always R) :
    (presentDecision h s context).Always R := by
  refine hp.bind fun _ => Always.bind (always_updateStep hwork fun st => ?_) fun _ =>
    always_get.bind fun _ => always_worked_note hwork
  -- The frame forgets whether the decision has begun.
  refine Step.worked_of_same ?_ rfl rfl
  cases hd : st.decision <;> simp only [Step.frame, hd, Option.map_none, Option.map_some]

theorem always_execute {context : γ} (hx : (h.execute s context).Always R)
    (hp : (h.present s context).Always R) : (execute h s context).Always R := by
  refine always_get.bind fun e => ?_
  split
  · exact (always_presentDecision hwork hp).bind fun _ => always_pure _
  · exact hx

theorem always_guarding {α : Type} {action : Act σ α} (w : WorkflowId) (ha : action.Always R) :
    (guarding w s action).Always R := by
  refine ha.tryCatch fun f => ?_
  split
  · refine Always.bind (always_updateStep hwork fun st => ?_) fun _ => always_get.bind fun _ => ?_
    · exact Step.worked_of_same rfl rfl rfl
    · exact (always_worked_note hwork).bind fun _ => always_throw _
  · exact always_throw _

/-- Running a step does what its hooks do, apart from work on the step. -/
theorem always_runStep {context : γ} (hs : (h.starting s).Always R) (hx : (h.execute s context).Always R)
    (hp : (h.present s context).Always R) (w : WorkflowId) : (runStep h w s context).Always R := by
  have hstart := always_guarding hwork w (always_start hwork hs)
  have hexec := always_guarding hwork w (always_execute hwork hx hp)
  refine always_get.bind fun _ => (hstart.onlyIf _).bind fun _ => Always.onlyIf ?_ _
  exact hexec.bind fun o => always_get.bind fun _ => (always_setOutcome hwork o).onlyIf _

end Running

/-- Running a step with quiet hooks works on that step alone. -/
theorem runStep_worked {h : Hooks σ γ} {seen : σ → List StepId} (s : StepId) (hq : h.Quiet)
    (hl : h.Logs seen) (w : WorkflowId) (context : γ) :
    (runStep h w s context).Always (Worked seen s) := by
  refine always_runStep worked_mapStep (fun e => ?_) (fun e => ?_) (fun e => ?_) w
  · exact worked_of_core (hq.starting s e) ((hl.starting s e).mono fun _ => False.elim)
  · exact worked_of_core (hq.execute s context e) (hl.execute s context e)
  · exact worked_of_core (hq.present s context e) (hl.present s context e)

/-! ## Telling listeners -/

section Telling

variable {h : Hooks σ γ} {R : Engine σ → Engine σ → Prop} [IsPreorder (Engine σ) R]
  (hobs : ∀ l event, event.kind.isOfQueue = true → (h.observe l event).Always R)
  (hoff : ∀ {e e' : Engine σ}, e'.steps = e.steps → e'.workflows = e.workflows →
    e'.contexts = e.contexts → e'.host = e.host → e'.clock = e.clock → R e e')
include hobs hoff

omit hobs [IsPreorder (Engine σ) R] in
theorem always_note {logger : String} {level : Logging.Level} {text : String}
    {extras : Entries String Value} : (note logger level text extras : Act σ Unit).Always R :=
  always_modify fun _ => hoff rfl rfl rfl rfl rfl

omit hobs [IsPreorder (Engine σ) R] in
theorem always_updateQueue (q : QueueId) (f : DecisionQueue → DecisionQueue) :
    (updateQueue q f : Act σ Unit).Always R := always_modify fun _ => hoff rfl rfl rfl rfl rfl

omit hobs [IsPreorder (Engine σ) R] in
theorem always_updateManager (m : ManagerId) (f : Manager → Manager) :
    (updateManager m f : Act σ Unit).Always R := always_modify fun _ => hoff rfl rfl rfl rfl rfl

omit hobs hoff in
theorem always_numberOf (s : StepId) : (numberOf s : Act σ Nat).Always R := by
  refine always_get.bind fun e => ?_
  dsimp only
  split
  · exact always_pure _
  · exact always_throw _

omit hobs hoff in
theorem always_requireQueued (q : QueueId) (s : StepId) : (requireQueued q s : Act σ Unit).Always R := by
  refine always_get.bind fun e => ?_
  split
  · exact (always_numberOf s).bind fun _ => always_throw _
  · exact always_pure _

omit hoff in
theorem always_emitQueue (q : QueueId) (s : StepId) {kind : EventKind} (hk : kind.isOfQueue = true) :
    (emitQueue h q s kind).Always R :=
  always_get.bind fun _ => Always.forM _ fun l _ => hobs l _ hk

theorem always_enqueue (q : QueueId) (s : StepId) : (enqueue h q s).Always R := by
  refine always_get.bind fun _ => Always.onlyIf ?_ _
  refine (always_updateQueue hoff q _).bind fun _ => (always_numberOf s).bind fun n =>
    always_get.bind fun _ => ?_
  exact (always_note hoff).bind fun _ => always_emitQueue hobs q s rfl

theorem always_removeQueued (q : QueueId) (s : StepId) : (removeQueued h q s).Always R :=
  (always_updateQueue hoff q _).bind fun _ => (always_numberOf s).bind fun _ =>
    always_emitQueue hobs q s rfl

theorem always_dequeue (q : QueueId) (s : StepId) : (dequeue h q s).Always R :=
  always_get.bind fun _ => (always_removeQueued hobs hoff q s).onlyIf _

theorem always_onFinished (m : ManagerId) (w : WorkflowId) : (onFinished h m w).Always R := by
  refine always_get.bind fun _ => Always.bind (Always.forM _ fun s _ => ?_) fun _ => ?_
  · exact always_get.bind fun _ => (always_dequeue hobs hoff _ s).onlyIf _
  · refine always_get.bind fun _ => (always_failIf _ _).bind fun _ => ?_
    exact (always_updateManager hoff m _).bind fun _ => always_note hoff

theorem always_manage (m : ManagerId) (event : Event) : (manage h m event).Always R := by
  refine always_get.bind fun e => ?_
  split
  · exact always_pure _
  split
  · refine always_get.bind fun e => ?_
    split
    · exact (always_enqueue hobs hoff _ _).onlyIf _
    · exact always_pure _
  · exact always_onFinished hobs hoff m _
  · exact always_onFinished hobs hoff m _
  · exact always_pure _

omit hobs in
/-- Telling the listeners of a workflow does what the listeners do, apart from what managers keep. -/
theorem always_emit (hall : ∀ l event, (h.observe l event).Always R) (w : WorkflowId) (kind : EventKind) :
    (emit h w kind).Always R := by
  refine always_get.bind fun _ => Always.forM _ fun l _ => ?_
  cases l with
  | manager m => exact always_manage (fun l event _ => hall l event) hoff m _
  | observer l => exact hall l _

end Telling

/-- Telling the listeners of a workflow changes no step and no workflow. -/
theorem emit_told {h : Hooks σ γ} {seen : σ → List StepId} (hq : h.Quiet) (hl : h.Logs seen)
    (w : WorkflowId) (kind : EventKind) : (emit h w kind).Always (Told seen) := by
  refine always_emit (fun hs hw _ hh _ => ⟨hs, hw, adds_of_host hh⟩) (fun l event e => ?_) w kind
  exact told_of_core (hq.observe l event e) (hl.observe l event e)

end Engine

end ApprovalFlow
