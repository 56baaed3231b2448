import ApprovalFlow.Proofs.ManagedChanges
import ApprovalFlow.Proofs.DrivingInvariants

/-!
# What the operations of managers sustain

A preorder on engines that sustains the elementary changes that managers make (`Rules`) sustains all that is
done by way of a manager, if it sustains what the hooks do and that queues change. One that looks neither at
queues nor at managers (`Governs`) need only sustain what the hooks do (`Governs.next`). So every step
persists (`next_persists`): what it is made as never changes, such as its kind, its choices, the facts of a
decision and the actor of one that cannot be reassigned, and its completion is final.
-/

namespace ApprovalFlow

open Act

variable {σ γ : Type}

namespace Engine

/-- The relation sustains whatever happens to managers and to workflows that keep their first step, and that
steps are bound and reassigned. -/
structure Rules (R : Engine σ → Engine σ → Prop) : Prop extends Works R where
  workflow : ∀ w f e, (f (e.workflow w)).first = (e.workflow w).first → R e (e.mapWorkflow w f)
  bind : ∀ s id c e, R e (e.mapStep s ({ · with workflowId := some id, context := some c }))
  reassign : ∀ s actor e, (e.step s).isReassignable = true → R e (e.mapStep s ({ · with actor }))
  manager : ∀ m f e, R e (e.mapManager m f)

/-- The relation sustains all this, and looks neither at queues nor at managers. -/
structure Governs (R : Engine σ → Engine σ → Prop) : Prop extends Bears R, Rules R where
  manager := fun _ _ _ => off rfl rfl rfl rfl rfl

variable {h : Hooks σ γ} {R : Engine σ → Engine σ → Prop} [IsPreorder (Engine σ) R] {w : WorkflowId}
  {s : StepId} {m : ManagerId} {q : QueueId} {o : Outcome} {actor : Option Actor} {context : γ}
  {e : Engine σ}

namespace Rules

variable (hg : Rules R)
include hg

theorem travels : Travels R w where
  toWorks := hg.toWorks
  flow f e hc := hg.workflow w f e (Workflow.first_of_frame hc.frame)
  go _ t e _ _ _ := IsTrans.trans _ _ _ (hg.bind t _ _ e) (hg.workflow w _ _ rfl)

omit [IsPreorder (Engine σ) R] in
theorem updateManager (f : Manager → Manager) : (updateManager m f : Act σ Unit).Always R :=
  always_modify fun e => hg.manager m f e

omit [IsPreorder (Engine σ) R] in
theorem updateWorkflow (f : Workflow → Workflow) (hf : ∀ wf : Workflow, (f wf).first = wf.first) :
    (updateWorkflow w f : Act σ Unit).Always R :=
  always_modify fun e => hg.workflow w f e (hf _)

theorem accept : (accept m w : Act σ Unit).Always R := by
  have hrenamed : ∀ id : Int, (Engine.updateWorkflow w ({ · with id }) : Act σ Unit).Always R :=
    fun _ => hg.updateWorkflow _ fun _ => rfl
  refine always_get.bind fun e => ?_
  dsimp only
  split
  · refine Always.bind (always_get.bind fun _ => (hg.updateManager _).bind fun _ => always_pure _)
      fun n => ?_
    refine always_get.bind fun _ => (always_failIf _ _).bind fun _ => (hrenamed _).bind fun _ => ?_
    exact always_get.bind fun _ => (always_failIf _ _).bind fun _ => always_modify fun e =>
      hg.bind _ _ _ e
  · exact always_failIf _ _

theorem register : (register m w : Act σ Unit).Always R := by
  have hheard : (listenTo w (.manager m) : Act σ Unit).Always R := hg.updateWorkflow _ fun _ => rfl
  exact always_get.bind fun _ => (hg.updateManager _).bind fun _ => hheard.bind fun _ => hg.note

theorem enrol : (Engine.accept m w >>= fun _ => Engine.register m w : Act σ Unit).Always R :=
  hg.accept.bind fun _ => hg.register

theorem reassignStep : (Engine.reassign s actor : Act σ Unit).Always R := by
  refine always_of_ends fun e => ?_
  simp only [Engine.reassign, ends_bind, ends_get, ends_failIf, ends_note, ends_updateStep]
  split
  · exact refl e
  split
  · exact refl e
  rename_i hr
  split
  · exact refl e
  have hr' : (e.step s).isReassignable = true := by simpa using hr
  exact IsTrans.trans _ _ _ (hg.aside e _ rfl) (hg.reassign s actor _ hr')

section Queues

/-- Deciding is sustained if it is that a decision leaves the queue. -/
theorem decideQueued (hdequeue : (dequeue h q s).Always R) : (decideQueued h q s o actor).Always R :=
  (always_requireQueued q s).bind fun _ => always_get.bind fun _ => (always_failIf _ _).bind fun _ =>
    (hg.resolve o).bind fun _ => always_get.bind fun _ => hdequeue.onlyIf _

theorem reassignQueued (htold : ∀ n a b, (emitQueue h q s (.reassigned n a b)).Always R) :
    (reassignQueued h q s actor).Always R :=
  (always_requireQueued q s).bind fun _ => always_get.bind fun _ => hg.reassignStep.bind fun _ => htold _ _ _

theorem startManaged (hheed : h.Heed R w) : (startManaged h m w context).Always R :=
  always_get.bind fun _ => (always_failIf _ _).bind fun _ => hg.accept.bind fun _ =>
    hg.register.bind fun _ => hg.travels.advance hheed

theorem decide (hdequeue : ∀ q s, (dequeue h q s).Always R) (hheed : ∀ w, h.Heed R w) :
    (decide h m s o actor context).Always R := by
  refine always_get.bind fun e => ?_
  dsimp only
  split
  · exact (always_numberOf s).bind fun _ => always_throw _
  · exact (hg.decideQueued (hdequeue _ _)).bind fun _ => hg.travels.advance (hheed _)

end Queues

end Rules

namespace Governs

variable (hg : Governs R)
include hg

theorem sustains : Sustains R w where
  toBears := hg.toBears
  flow := hg.travels.flow
  go := hg.travels.go

section Telling

variable (hobs : ∀ l event, (h.observe l event).Always R)
include hobs

theorem dequeue : (dequeue h q s).Always R := always_dequeue (fun l event _ => hobs l event) hg.apart q s

theorem decideQueued : (decideQueued h q s o actor).Always R := hg.toRules.decideQueued (hg.dequeue hobs)

theorem reassignQueued : (reassignQueued h q s actor).Always R :=
  hg.toRules.reassignQueued fun _ _ _ => always_emitQueue (fun l event _ => hobs l event) q s rfl

theorem abort : (abort h w).Always R := hg.travels.abort fun kind _ => hg.emit hobs kind

end Telling

/-- What a manager does is sustained, if what the hooks do is. -/
theorem next (hobs : ∀ l event, (h.observe l event).Always R) (hheed : ∀ w, h.Heed R w)
    {members : WorkflowId → Prop} {op : Operation σ γ} (hop : Manages m members e op) :
    R e (next h e op) := by
  have hdequeue : ∀ q s, (Engine.dequeue h q s).Always R := fun _ _ => hg.dequeue hobs
  unfold Engine.next
  cases op with
  | advance w context => exact ((hg.travels.advance (hheed w)).bind fun _ => always_pure ()) e
  | abort w => exact hg.abort hobs e
  | reassign s actor => exact hg.reassignStep e
  | reassignQueued q s actor => exact hg.reassignQueued hobs e
  | start n w context => exact ((hg.startManaged (hheed w)).bind fun _ => always_pure ()) e
  | decideQueued q s o actor => exact hg.decideQueued hobs e
  | decide n s o actor context => exact ((hg.decide hdequeue hheed).bind fun _ => always_pure ()) e
  | resolve | other => exact hop.elim

end Governs

end Engine

/-! ## What steps are made as -/

namespace Step

/-- What a step is made as: all but its progress, what it is bound to, and an actor that may change. -/
def outline (st : Step) : Step :=
  { st.frame with
    workflowId := none, context := none, actor := if st.frame.isReassignable then none else st.actor }

variable {a b c : Step}

theorem outline_of_frame (h : b.frame = a.frame) : b.outline = a.outline := by
  have hactor : b.actor = a.actor := (congrArg Step.actor h : b.frame.actor = a.frame.actor)
  unfold outline
  rw [h, hactor]

theorem isReassignable_frame (st : Step) : st.frame.isReassignable = st.isReassignable := by
  unfold frame isReassignable
  cases st.decision <;> rfl

theorem outline_reassigned {st : Step} (h : st.isReassignable = true) (actor : Option Actor) :
    ({ st with actor } : Step).outline = st.outline := by
  have h₁ : st.frame.isReassignable = true := (isReassignable_frame st).trans h
  have h₂ : ({ st with actor } : Step).frame.isReassignable = true := h₁
  unfold outline
  rw [if_pos h₁, if_pos h₂]
  rfl

section Outline

variable (h : b.outline = a.outline)
include h

theorem successors_of_outline : b.successors = a.successors :=
  (congrArg Step.successors h : b.outline.successors = a.outline.successors)

theorem key_of_outline : b.key = a.key := (congrArg Step.key h : b.outline.key = a.outline.key)

theorem decision_of_outline : b.frame.decision = a.frame.decision :=
  (congrArg Step.decision h : b.outline.decision = a.outline.decision)

theorem isDecision_of_outline : b.isDecision = a.isDecision := by
  have hd : b.frame.isDecision = a.frame.isDecision := congrArg Option.isSome (decision_of_outline h)
  simpa only [frame, isDecision, Option.isSome_map] using hd

theorem facts_of_outline : b.facts = a.facts := by
  have hd := congrArg (fun d : Option Decision => (d.map (·.facts)).getD []) (decision_of_outline h)
  simpa only [frame, facts, Option.map_map, Function.comp_def] using hd

theorem isNotification_of_outline : b.isNotification = a.isNotification := by
  have hd := congrArg (fun d : Option Decision => d.any (·.isNotification)) (decision_of_outline h)
  simpa only [frame, isNotification, Option.any_map, Function.comp_def] using hd

theorem actor_of_outline (ha : a.isReassignable = false) : b.actor = a.actor := by
  have hr : b.frame.isReassignable = a.frame.isReassignable := by
    unfold isReassignable
    rw [decision_of_outline h]
  have ha' : a.frame.isReassignable = false := (isReassignable_frame a).trans ha
  have hactor := congrArg Step.actor h
  unfold outline at hactor
  rwa [if_neg (by rw [hr, ha']; exact Bool.false_ne_true), if_neg (by rw [ha']; exact Bool.false_ne_true)]
    at hactor

end Outline

/-- The step is still what it was made as, and if it was completed, that is final. -/
structure Persists (a b : Step) : Prop where
  outline : b.outline = a.outline
  final : a.isCompleted = true → b.isCompleted = true ∧ b.outcome = a.outcome

theorem persists_refl (a : Step) : a.Persists a := ⟨rfl, fun h => ⟨h, rfl⟩⟩

theorem Persists.trans (h : a.Persists b) (h' : b.Persists c) : a.Persists c where
  outline := h'.outline.trans h.outline
  final ha := by
    obtain ⟨hb, hob⟩ := h.final ha
    obtain ⟨hc, hoc⟩ := h'.final hb
    exact ⟨hc, hoc.trans hob⟩

instance : IsPreorder Step Persists where
  refl := persists_refl
  trans _ _ _ := Persists.trans

theorem Worked.persists (h : Step.Worked a b) : a.Persists b := ⟨outline_of_frame h.frame, h.final⟩

end Step

namespace Engine

variable {h : Hooks σ γ} {w : WorkflowId} {s : StepId} {m : ManagerId} {e e' : Engine σ}

/-- Every step is what it was made as, what is completed stays so, and workflows begin where they did. -/
structure Persists (e e' : Engine σ) : Prop where
  steps : ∀ s, (e.step s).Persists (e'.step s)
  first : ∀ w, (e'.workflow w).first = (e.workflow w).first

theorem persists_refl (e : Engine σ) : Persists e e := ⟨fun s => Step.persists_refl (e.step s), fun _ => rfl⟩

instance : IsPreorder (Engine σ) Persists where
  refl := persists_refl
  trans _ _ _ h h' := ⟨fun s => (h.steps s).trans (h'.steps s), fun w => (h'.first w).trans (h.first w)⟩

theorem persists_of_workflows (hw : e'.workflows = e.workflows)
    (hs : ∀ s, (e.step s).Persists (e'.step s)) : Persists e e' :=
  ⟨hs, fun v => by rw [workflow_of_workflows hw]⟩

theorem persists_of_same (hs : e'.steps = e.steps) (hw : e'.workflows = e.workflows) : Persists e e' :=
  persists_of_workflows hw fun s => step_of_steps hs s ▸ Step.persists_refl _

theorem persists_of_core (hc : e'.core = e.core) : Persists e e' :=
  persists_of_same (congrArg Core.steps hc) (congrArg Core.workflows hc)

theorem persists_mapStep {f : Step → Step} (hf : (e.step s).Persists (f (e.step s))) :
    Persists e (e.mapStep s f) :=
  persists_of_workflows rfl fun t => rel_step_mapStep t f hf

theorem persists_mapWorkflow {f : Workflow → Workflow}
    (hf : (f (e.workflow w)).first = (e.workflow w).first) : Persists e (e.mapWorkflow w f) :=
  ⟨fun _ => refl _, workflow_mapWorkflow_eq hf⟩

theorem persists_of_self (hw : e'.workflows = e.workflows) (hself : Step.Worked (e.step s) (e'.step s))
    (hothers : ∀ t, t ≠ s → e'.step t = e.step t) : Persists e e' := by
  refine persists_of_workflows hw fun t => ?_
  by_cases ht : t = s
  · rw [ht]
    exact Step.Worked.persists hself
  · rw [hothers t ht]
    exact Step.persists_refl _

theorem persists_of_worked {seen : σ → List StepId} (hw : Worked seen s e e') : Persists e e' :=
  persists_of_self hw.workflows hw.self hw.others

theorem Answered.persists (ha : Answered m s e e') : Persists e e' :=
  persists_of_self ha.workflows ha.self ha.others

theorem Persists.targets (hp : Persists e e') (s : StepId) : e'.targets s = e.targets s :=
  targets_of_successors (Step.successors_of_outline (hp.steps s).outline)

theorem governs_persists : Governs (Persists (σ := σ)) where
  off hs hw _ _ _ := persists_of_same hs hw
  work _ _ _ hf := persists_mapStep (Step.Worked.persists hf.toWorked)
  workflow _ _ _ hf := persists_mapWorkflow hf
  bind _ _ _ _ := persists_mapStep ⟨rfl, fun h => ⟨h, rfl⟩⟩
  reassign _ actor _ hr := persists_mapStep ⟨Step.outline_reassigned hr actor, fun h => ⟨h, rfl⟩⟩

section Quiet

variable (hq : h.Quiet)
include hq

theorem persists_observe (l : ListenerId) (event : Event) : (h.observe l event).Always Persists :=
  (hq.observe l event).mono persists_of_core

theorem heed_persists (w : WorkflowId) : h.Heed Persists w where
  starting s := (hq.starting s).mono persists_of_core
  execute s context := (hq.execute s context).mono persists_of_core
  present s context := (hq.present s context).mono persists_of_core
  emit kind _ := governs_persists.emit (persists_observe hq) kind

/-- Whatever is done by way of a manager, steps persist. -/
theorem next_persists {members : WorkflowId → Prop} {op : Operation σ γ} (hop : Manages m members e op) :
    Persists e (next h e op) :=
  governs_persists.next (persists_observe hq) (heed_persists hq) hop

end Quiet

end Engine

end ApprovalFlow
