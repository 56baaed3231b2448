import ApprovalFlow.Engine.Management
import ApprovalFlow.Proofs.ManagerContents
import ApprovalFlow.Proofs.EngineLikeness

/-!
# Breaches of contract

A request that is not allowed in the present state, or not with its arguments, fails before anything has
changed, and once something has changed no breach follows. There is one exception: a workflow that has not
started takes another id before its first step is bound to that id, and a step that was started elsewhere
refuses. The workflow keeps the id all the same, and a manager that gave it does not take it back
(`untouched_iff_not_strands`).
-/

namespace ApprovalFlow

/-- A breach of contract: something that is not allowed in the present state, or not with these
arguments. -/
def Failure.IsBreach (x : Failure) : Prop := x.kind = .illegalState ∨ x.kind = .illegalArgument

instance (x : Failure) : Decidable x.IsBreach := inferInstanceAs (Decidable (_ ∨ _))

namespace Engine

open Act

variable {σ γ α β : Type} {h : Hooks σ γ} {e e' : Engine σ} {w : WorkflowId} {s : StepId} {q : QueueId}
  {m : ManagerId} {actor : Option Actor}

structure Untouched (e e' : Engine σ) : Prop where
  core : e'.core = e.core
  contexts : e'.contexts = e.contexts

instance : IsPreorder (Engine σ) Untouched where
  refl _ := ⟨rfl, rfl⟩
  trans _ _ _ h h' := ⟨h'.core.trans h.core, h'.contexts.trans h.contexts⟩

/-! ## What cannot be a breach -/

def Lawful (m : Act σ α) (e : Engine σ) : Prop := m.Ends e (fun _ _ => True) fun x _ => ¬x.IsBreach

theorem Lawful.bind {m : Act σ α} {f : α → Act σ β} (hm : Lawful m e) (hf : ∀ a e', Lawful (f a) e') :
    Lawful (m >>= f) e :=
  (ends_bind m f).mpr (hm.mono (fun a e' _ => hf a e') fun _ _ hx => hx)

theorem Lawful.onlyIf {m : Act σ Unit} (hm : Lawful m e) (c : Bool) : Lawful (onlyIf c m) e := by
  unfold Lawful
  rw [ends_onlyIf]
  split
  · exact hm
  · trivial

theorem lawful_failIf (c : Bool) {x : Failure} (hx : ¬x.IsBreach) : Lawful (failIf c x) e := by
  unfold Lawful
  rw [ends_failIf]
  split
  · exact hx
  · trivial

theorem lawful_forM {ι : Type} {f : ι → Act σ Unit} (hf : ∀ x e, Lawful (f x) e) (xs : List ι)
    (e : Engine σ) : Lawful (xs.forM f) e := by
  induction xs generalizing e with
  | nil => trivial
  | cons x xs ih => exact (hf x e).bind fun _ => ih

theorem lawful_get (e : Engine σ) : Lawful get e := trivial

theorem lawful_updateQueue (q : QueueId) (f : DecisionQueue → DecisionQueue) (e : Engine σ) :
    Lawful (updateQueue q f) e := trivial

theorem lawful_note {logger : String} {level : Logging.Level} {text : String}
    {extras : Entries String Value} (e : Engine σ) : Lawful (note logger level text extras) e := trivial

theorem lawful_numberOf (s : StepId) (e : Engine σ) : Lawful (numberOf s) e := by
  refine (lawful_get e).bind fun e₁ e₂ => ?_
  dsimp only
  split
  · trivial
  · unfold Lawful
    rw [ends_throw]
    exact of_decide_eq_false rfl

section Telling

variable (hs : h.Silent)
include hs

theorem lawful_observe (l : ListenerId) (event : Event) (e : Engine σ) : Lawful (h.observe l event) e := by
  have hok := hs l event e
  refine (ends_run _ _).mono (fun _ _ _ => trivial) fun x e' hx => ?_
  rw [hx] at hok
  contradiction

theorem lawful_emitQueue (q : QueueId) (s : StepId) (kind : EventKind) (e : Engine σ) :
    Lawful (emitQueue h q s kind) e :=
  (lawful_get e).bind fun _ => lawful_forM (fun l => lawful_observe hs l _) _

theorem lawful_dequeue (q : QueueId) (s : StepId) (e : Engine σ) : Lawful (dequeue h q s) e := by
  refine (lawful_get e).bind fun e₁ e₂ => Lawful.onlyIf ?_ _
  exact (lawful_updateQueue q _ e₂).bind fun _ e₃ => (lawful_numberOf s e₃).bind fun _ =>
    lawful_emitQueue hs q s _

theorem lawful_enqueue (q : QueueId) (s : StepId) (e : Engine σ) : Lawful (enqueue h q s) e := by
  refine (lawful_get e).bind fun e₁ e₂ => Lawful.onlyIf ?_ _
  exact (lawful_updateQueue q _ e₂).bind fun _ e₃ => (lawful_numberOf s e₃).bind fun _ e₄ =>
    (lawful_get e₄).bind fun _ e₅ => (lawful_note e₅).bind fun _ => lawful_emitQueue hs q s _

theorem lawful_onFinished (m : ManagerId) (w : WorkflowId) (e : Engine σ) :
    Lawful (onFinished h m w) e := by
  refine (lawful_get e).bind fun e₁ e₂ => Lawful.bind (lawful_forM (fun s e₃ => ?_) _ e₂) fun _ e₃ => ?_
  · exact (lawful_get e₃).bind fun _ e₄ => (lawful_dequeue hs _ s e₄).onlyIf _
  · exact (lawful_get e₃).bind fun _ e₄ => (lawful_failIf _ (of_decide_eq_false rfl)).bind fun _ _ => trivial

/-- Managers take events without a breach: what they may miss is an entry of theirs. -/
theorem lawful_manage (m : ManagerId) (event : Event) (e : Engine σ) : Lawful (manage h m event) e := by
  refine (lawful_get e).bind fun e₁ e₂ => ?_
  split
  · trivial
  split
  · refine (lawful_get e₂).bind fun e₃ e₄ => ?_
    split
    · exact (lawful_enqueue hs _ _ e₄).onlyIf _
    · trivial
  · exact lawful_onFinished hs m _ e₂
  · exact lawful_onFinished hs m _ e₂
  · trivial

theorem lawful_emit (w : WorkflowId) (kind : EventKind) (e : Engine σ) : Lawful (emit h w kind) e := by
  refine (lawful_get e).bind fun e₁ e₂ => lawful_forM (fun l e₃ => ?_) _ e₂
  cases l with
  | manager m => exact lawful_manage hs m _ e₃
  | observer l => exact lawful_observe hs l _ e₃

end Telling

/-! ## Breaches that leave no trace -/

def Traceless (m : Act σ α) (e : Engine σ) : Prop :=
  m.Ends e (fun _ _ => True) fun x e' => x.IsBreach → Untouched e e'

/-- What touches nothing may come first. -/
theorem Traceless.after {m : Act σ α} {f : α → Act σ β} (hm : m.Always Untouched)
    (hf : ∀ a e', Traceless (f a) e') : Traceless (m >>= f) e := by
  refine (ends_bind m f).mpr ((hm.ends e).mono (fun a e' h₁ => ?_) fun _ _ h₁ _ => h₁)
  exact (hf a e').mono (fun _ _ _ => trivial) fun _ _ h₂ hb => IsTrans.trans _ _ _ h₁ (h₂ hb)

/-- What cannot be a breach may come last. -/
theorem Traceless.before {m : Act σ α} {f : α → Act σ β} (hm : Traceless m e)
    (hf : ∀ a e', Lawful (f a) e') : Traceless (m >>= f) e := by
  refine (ends_bind m f).mpr (hm.mono (fun a e' _ => ?_) fun _ _ hx => hx)
  exact Ends.mono (hf a e') (fun _ _ _ => trivial) fun _ _ hx hb => absurd hb hx

theorem traceless_of_same {m : Act σ α} (hm : m.Ends e (fun _ _ => True) fun _ e' => e' = e) :
    Traceless m e :=
  hm.mono (fun _ _ _ => trivial) fun _ _ he _ => he ▸ refl _

theorem traceless_startStep (s : StepId) (e : Engine σ) : Traceless (startStep s) e :=
  traceless_of_same ((startStep_ends s e).mono (fun _ _ _ => trivial) fun _ _ he => he)

theorem traceless_start (hstart : ∀ s, (h.starting s).Always Untouched) (s : StepId) (e : Engine σ) :
    Traceless (start h s) e :=
  .after (hstart s) fun _ _ => .after always_get fun _ _ => .after (always_failIf _ _) fun _ =>
    traceless_startStep s

theorem traceless_setOutcome (s : StepId) (o : Outcome) (e : Engine σ) : Traceless (setOutcome s o) e :=
  traceless_of_same ((setOutcome_ends s o e).mono (fun _ _ _ => trivial) fun _ _ he => he.1)

theorem traceless_resolve (s : StepId) (o : Outcome) (e : Engine σ) : Traceless (resolve s o) e :=
  traceless_of_same ((resolve_ends s o e).mono (fun _ _ _ => trivial) fun _ _ he => he)

theorem traceless_reassign (s : StepId) (actor : Option Actor) (e : Engine σ) :
    Traceless (reassign s actor) e :=
  traceless_of_same ((reassign_ends s actor e).mono (fun _ _ _ => trivial) fun _ _ he => he)

theorem traceless_bindStep (s : StepId) (id : Int) (c : ContextId) (e : Engine σ) :
    Traceless (bindStep s id c) e := by
  refine traceless_of_same ((ends_bindStep s id c).mpr ?_)
  split
  · rfl
  · trivial

theorem traceless_addMessageArgument (w : WorkflowId) (v : Value) (e : Engine σ) :
    Traceless (addMessageArgument w v) e := by
  unfold addMessageArgument
  split
  · trivial
  · exact fun _ => refl e

/-- A workflow that is not over can be aborted: what its listeners do cannot be a breach. -/
theorem traceless_abort (hs : h.Silent) (w : WorkflowId) (e : Engine σ) : Traceless (abort h w) e :=
  abort_closes (fun _ _ _ => refl e) fun _ _ _ e₂ _ _ =>
    (lawful_emit hs w _ e₂).mono (fun _ _ _ => trivial) fun _ _ hx hb => absurd hb hx

theorem traceless_decideQueued (hs : h.Silent) (q : QueueId) (s : StepId) (o : Outcome)
    (actor : Option Actor) (e : Engine σ) : Traceless (decideQueued h q s o actor) e :=
  .after (always_requireQueued q s) fun _ _ => .after always_get fun _ _ =>
    .after (always_failIf _ _) fun _ e₁ => (traceless_resolve s o e₁).before fun _ e₂ =>
      (lawful_get e₂).bind fun _ e₃ => (lawful_dequeue hs q s e₃).onlyIf _

theorem traceless_reassignQueued (hs : h.Silent) (q : QueueId) (s : StepId) (actor : Option Actor)
    (e : Engine σ) : Traceless (reassignQueued h q s actor) e :=
  .after (always_requireQueued q s) fun _ _ => .after always_get fun _ e₁ =>
    (traceless_reassign s actor e₁).before fun _ => lawful_emitQueue hs q s _

/-! ## Workflows whose first step was started elsewhere -/

/-- The workflow has not started, but its first step has, in another context. -/
structure Lent (e : Engine σ) (w : WorkflowId) : Prop where
  created : (e.workflow w).state = .created
  elsewhere : ((e.step (e.workflow w).first).isStarted &&
    (e.step (e.workflow w).first).context.any (· != (e.workflow w).context)) = true

/-- Assigning an id fails before it changes anything, but for a workflow whose first step was started
elsewhere. -/
theorem assignId_strands (w : WorkflowId) (id : Int) (e : Engine σ) :
    (assignId w id).Ends e (fun _ _ => ¬e.Lent w)
      (fun _ e' => e.Lent w ∧ e' = e.mapWorkflow w (·.renamed id) ∨
        (e.workflow w).state ≠ .created ∧ e' = e) := by
  simp only [assignId, ends_bind, ends_get, ends_failIf, ends_updateWorkflow, ends_bindStep]
  split
  · rename_i hst
    exact .inr ⟨bne_iff_ne.mp hst, trivial⟩
  rename_i hst
  split
  · rename_i hb
    exact .inl ⟨⟨by simpa using hst, hb⟩, rfl⟩
  · rename_i hb
    exact fun hl => hb hl.elsewhere

/-- What starting a workflow under a manager does before the workflow is advanced. -/
def takeOn (m : ManagerId) (w : WorkflowId) : Act σ Unit := do
  let wf := (← get).workflow w
  failIf (wf.state != .created) (.workflowStarted wf.id)
  accept m w
  register m w

theorem startManaged_eq_takeOn (m : ManagerId) (w : WorkflowId) (context : γ) :
    startManaged h m w context = takeOn m w >>= fun _ => advance h w context := by
  simp only [startManaged, takeOn, bind_assoc]

def numbered (e : Engine σ) (m : ManagerId) (w : WorkflowId) : Engine σ :=
  (e.mapManager m ({ · with nextId := (e.manager m).nextId + 1 })).mapWorkflow w
    (·.renamed (e.manager m).nextId)

/-- A workflow is taken on or nothing changes, but for a workflow that needs an id and whose first step was
started elsewhere. -/
theorem takeOn_strands (m : ManagerId) (w : WorkflowId) (e : Engine σ) :
    (takeOn m w).Ends e (fun _ _ => ¬(e.Lent w ∧ (e.workflow w).id = 0))
      (fun _ e' => (e.Lent w ∧ (e.workflow w).id = 0) ∧ e' = e.numbered m w ∨
        ¬(e.Lent w ∧ (e.workflow w).id = 0) ∧ e' = e) := by
  have hregister : ∀ e₁ : Engine σ, (register m w).Ends e₁ (fun _ _ => True) fun _ _ => False :=
    fun _ => trivial
  simp only [takeOn, accept, ends_bind, ends_get, ends_failIf]
  split
  · rename_i hst
    exact .inr ⟨fun hl => bne_iff_ne.mp hst hl.1.created, trivial⟩
  rename_i hst
  by_cases hid : (e.workflow w).id = 0
  case neg =>
    rw [if_neg hid, ends_failIf]
    split
    · exact .inr ⟨fun hl => hid hl.2, rfl⟩
    · exact (hregister e).mono (fun _ _ _ hl => hid hl.2) fun _ _ hf => hf.elim
  rw [if_pos hid]
  simp only [takeId, ends_bind, ends_get, ends_updateManager, ends_pure]
  -- Giving out an id touches no workflow and no step.
  have hlent : ∀ l, (e.mapManager m l).Lent w ↔ e.Lent w := fun l =>
    ⟨fun hl => ⟨hl.created, hl.elsewhere⟩, fun hl => ⟨hl.created, hl.elsewhere⟩⟩
  refine (assignId_strands w _ _).mono (fun _ e₁ hn => ?_) ?_
  · exact (hregister e₁).mono (fun _ _ _ hl => hn ((hlent _).mpr hl.1)) fun _ _ hf => hf.elim
  · rintro _ e₁ (⟨hl, rfl⟩ | ⟨hn, -⟩)
    · exact .inl ⟨⟨(hlent _).mp hl, hid⟩, rfl⟩
    · exact absurd (by simpa using hst) hn

/-! ## Requests -/

/-- The requests that check their contract. `takeOn` is what starting a workflow under a manager does before
the workflow is advanced for the first time (`startManaged_eq_takeOn`). -/
inductive Request where
  | start (s : StepId)
  | setOutcome (s : StepId) (o : Outcome)
  | resolve (s : StepId) (o : Outcome)
  | reassign (s : StepId) (actor : Option Actor)
  | bindStep (s : StepId) (id : Int) (c : ContextId)
  | assignId (w : WorkflowId) (id : Int)
  | addMessageArgument (w : WorkflowId) (v : Value)
  | abort (w : WorkflowId)
  | decideQueued (q : QueueId) (s : StepId) (o : Outcome) (actor : Option Actor)
  | reassignQueued (q : QueueId) (s : StepId) (actor : Option Actor)
  | takeOn (m : ManagerId) (w : WorkflowId)

def Request.act (h : Hooks σ γ) : Request → Act σ Unit
  | .start s => Engine.start h s
  | .setOutcome s o => Engine.setOutcome s o
  | .resolve s o => Engine.resolve s o
  | .reassign s actor => Engine.reassign s actor
  | .bindStep s id c => Engine.bindStep s id c
  | .assignId w id => Engine.assignId w id
  | .addMessageArgument w v => Engine.addMessageArgument w v
  | .abort w => Engine.abort h w
  | .decideQueued q s o actor => Engine.decideQueued h q s o actor
  | .reassignQueued q s actor => Engine.reassignQueued h q s actor
  | .takeOn m w => Engine.takeOn m w

def Request.Present (e : Engine σ) : Request → Prop
  | .start s | .setOutcome s _ | .resolve s _ | .reassign s _ | .bindStep s _ _ => e.HasStep s
  | .assignId w _ | .addMessageArgument w _ | .abort w => e.HasWorkflow w
  | .decideQueued q s _ _ | .reassignQueued q s _ => e.HasQueue q ∧ e.HasStep s
  | .takeOn m w => e.HasManager m ∧ e.HasWorkflow w

/-- The request gives another id to a workflow whose first step refuses to be bound to it. -/
def Request.Strands (e : Engine σ) : Request → Prop
  | .assignId w id => e.Lent w ∧ (e.workflow w).id ≠ id
  | .takeOn _ w => e.Lent w ∧ (e.workflow w).id = 0
  | _ => False

def Request.stranded (e : Engine σ) : Request → Engine σ
  | .assignId w id => e.mapWorkflow w (·.renamed id)
  | .takeOn m w => e.numbered m w
  | _ => e

theorem Request.not_untouched_stranded {request : Request} (hp : request.Present e) (hc : request.Strands e) :
    ¬Untouched e (request.stranded e) := by
  intro hu
  cases request with
  | assignId w id =>
    have hid := congrArg Workflow.id (workflow_of_core hu.core w)
    rw [stranded, workflow_mapWorkflow_self _ hp] at hid
    exact hc.2 hid.symm
  | takeOn m w =>
    have hid : ((e.mapManager m ({ · with nextId := (e.manager m).nextId + 1 })).manager m).nextId =
        (e.manager m).nextId := congrArg Manager.nextId (manager_of_core hu.core m)
    rw [manager_mapManager, if_pos ⟨rfl, hp.1⟩] at hid
    exact Nat.succ_ne_self _ hid
  | _ => exact hc

/-- A request that fails by a breach of contract strands a workflow, or it has touched nothing. -/
theorem Request.ends (hs : h.Silent) (hstart : ∀ s, (h.starting s).Always Untouched) (request : Request)
    (e : Engine σ) :
    (request.act h).Ends e (fun _ _ => True) fun x e' => x.IsBreach →
      request.Strands e ∧ e' = request.stranded e ∨ ¬request.Strands e ∧ Untouched e e' := by
  have hcalm : Traceless (request.act h) e → ¬request.Strands e → (request.act h).Ends e (fun _ _ => True)
      fun x e' => x.IsBreach →
        request.Strands e ∧ e' = request.stranded e ∨ ¬request.Strands e ∧ Untouched e e' := fun ht hn =>
    ht.mono (fun _ _ _ => trivial) fun _ _ hu hb => .inr ⟨hn, hu hb⟩
  -- Only assigning an id and taking a workflow on can be caught halfway; the rest fail before they
  -- touch anything.
  cases request with
  | start s => exact hcalm (traceless_start hstart s e) id
  | setOutcome s o => exact hcalm (traceless_setOutcome s o e) id
  | resolve s o => exact hcalm (traceless_resolve s o e) id
  | reassign s actor => exact hcalm (traceless_reassign s actor e) id
  | bindStep s id c => exact hcalm (traceless_bindStep s id c e) fun hf => hf
  | assignId w id =>
    refine (assignId_strands w id e).mono (fun _ _ _ => trivial) ?_
    rintro _ _ (⟨hl, rfl⟩ | ⟨hst, rfl⟩) -
    · by_cases hid : (e.workflow w).id = id
      · refine .inr ⟨fun hc => hc.2 hid, ?_⟩
        rw [mapWorkflow_eq_self _ (by rw [← hid]; rfl)]
        exact refl e
      · exact .inl ⟨⟨hl, hid⟩, rfl⟩
    · exact .inr ⟨fun hc => hst hc.1.created, refl _⟩
  | addMessageArgument w v => exact hcalm (traceless_addMessageArgument w v e) id
  | abort w => exact hcalm (traceless_abort hs w e) id
  | decideQueued q s o actor => exact hcalm (traceless_decideQueued hs q s o actor e) id
  | reassignQueued q s actor => exact hcalm (traceless_reassignQueued hs q s actor e) id
  | takeOn m w =>
    refine (takeOn_strands m w e).mono (fun _ _ _ => trivial) ?_
    rintro _ _ (⟨hc, rfl⟩ | ⟨hn, rfl⟩) -
    · exact .inl ⟨hc, rfl⟩
    · exact .inr ⟨hn, refl _⟩

/-- Where listeners do not raise, a request that fails by a breach of contract has touched nothing, unless it
gives another id to a workflow whose first step was started elsewhere. Then the workflow keeps that id, and a
manager that gave it has one less to give; nothing else has changed. -/
theorem untouched_iff_not_strands {request : Request} {x : Failure} (hs : h.Silent)
    (hstart : ∀ s, (h.starting s).Always Untouched) (hp : request.Present e)
    (hr : (request.act h).run e = (.error x, e')) (hx : x.IsBreach) :
    (Untouched e e' ↔ ¬request.Strands e) ∧ (request.Strands e → e' = request.stranded e) := by
  rcases (Request.ends hs hstart request e).of_error hr hx with ⟨hc, rfl⟩ | ⟨hn, hu⟩
  · exact ⟨⟨fun hu => absurd hu (Request.not_untouched_stranded hp hc), fun hn => absurd hc hn⟩, fun _ => rfl⟩
  · exact ⟨⟨fun _ => hn, fun _ => hu⟩, fun hc => absurd hc hn⟩

/-! ## A task lent to another workflow -/

/-- Two workflows begin with the task. It is started for the one that was made last. -/
def lending : Act Unit Unit := do
  let s ← addTask "Task" "write" none
  let _ ← addWorkflow "early" s none 0 []
  let _ ← addWorkflow "late" s none 0 []
  startStep s

def lent : Engine Unit := (lending.run { clock := .counter 1 1, host := () }).2

/-- To start the task again touches nothing; to give the early workflow an id does. -/
theorem lent_untouched :
    (∃ e', ((Request.start ⟨0⟩).act Hooks.idle).run lent = (.error (.stepStarted "write"), e') ∧
      Untouched lent e') ∧
    ∃ e', ((Request.assignId ⟨0⟩ 5).act (Hooks.idle : Hooks Unit Unit)).run lent =
      (.error (.boundElsewhere "write"), e') ∧ ¬Untouched lent e' ∧
        e' = lent.mapWorkflow ⟨0⟩ (·.renamed 5) := by
  have hs : (Hooks.idle : Hooks Unit Unit).Silent := fun _ _ _ => rfl
  have hstart : ∀ s, ((Hooks.idle : Hooks Unit Unit).starting s).Always Untouched := fun _ => always_pure ()
  refine ⟨⟨_, rfl, ?_⟩, ⟨_, rfl, ?_⟩⟩
  · have hp : (Request.start ⟨0⟩).Present lent := show lent.HasStep ⟨0⟩ by decide
    exact (untouched_iff_not_strands hs hstart hp rfl (.inl rfl)).1.mpr id
  · have hc : (Request.assignId ⟨0⟩ 5).Strands lent := ⟨⟨by decide, by decide⟩, by decide⟩
    obtain ⟨hiff, hleft⟩ := untouched_iff_not_strands hs hstart
      (show (Request.assignId ⟨0⟩ 5).Present lent from show lent.HasWorkflow ⟨0⟩ by decide) rfl (.inl rfl)
    exact ⟨fun hu => hiff.mp hu hc, hleft hc⟩

/-- Not every breach leaves all as it was. -/
theorem lent_touched :
    ¬∀ (request : Request) (x : Failure) (e' : Engine Unit), request.Present lent →
      (request.act (Hooks.idle : Hooks Unit Unit)).run lent = (.error x, e') → x.IsBreach →
        Untouched lent e' := by
  intro hall
  have hu := hall (.assignId ⟨0⟩ 5) (.boundElsewhere "write") _ (show lent.HasWorkflow ⟨0⟩ by decide) rfl
    (.inl rfl)
  have hid := congrArg Workflow.id (workflow_of_core hu.core ⟨0⟩)
  exact absurd hid (by decide)

end Engine

end ApprovalFlow
