import ApprovalFlow.Proofs.Coherence
import ApprovalFlow.Proofs.ApprovalGraph
import ApprovalFlow.Proofs.Management
import ApprovalFlow.Proofs.Recordability

/-!
# Whatever is done, the engine stays coherent

Callers, hooks and listeners may use all that the engine offers, several levels deep and as they like: make
steps, workflows, queues and managers, drive, abort, decide and reassign (`Activity`). They refer to what is
there, and do not stop managers from listening to what they manage. In whatever engine that comes to, from one
that is empty, all is coherent (`Activity.upholds`).
-/

namespace ApprovalFlow

open Act

variable {σ γ α : Type}

theorem Successor.target_of_mem_register {o : Outcome} {target : Option StepId} {x : Successor}
    {l : List Successor} (hx : x ∈ Successor.register o target l) : x.target = target ∨ x ∈ l := by
  induction l with
  | nil =>
    rw [Successor.register, List.mem_singleton] at hx
    exact .inl (congrArg Successor.target hx)
  | cons y l ih =>
    rw [Successor.register] at hx
    split at hx
    · rcases List.mem_cons.mp hx with rfl | hx
      · exact .inl rfl
      · exact .inr (List.mem_cons_of_mem y hx)
    · rcases List.mem_cons.mp hx with rfl | hx
      · exact .inr List.mem_cons_self
      · exact (ih hx).imp_right (List.mem_cons_of_mem y)

def Step.Unlinked (st : Step) : Prop := ∀ x ∈ st.successors, x.target = none

theorem Step.Unlinked.withOutcomes {st : Step} (hst : st.Unlinked) (outcomes : List Outcome) :
    (st.withOutcomes outcomes).Unlinked := by
  unfold Step.withOutcomes
  induction outcomes generalizing st with
  | nil => exact hst
  | cons o outcomes ih =>
    apply ih
    intro x hx
    exact (Successor.target_of_mem_register hx).elim id (hst x)

namespace Engine

open Tended (provided)

variable {e e' : Engine σ} {h : Hooks σ γ} {w : WorkflowId} {s : StepId} {m : ManagerId} {q : QueueId}
  {o : Outcome} {actor : Option Actor} {context : γ} {target : Option StepId}

/-! ## Managers and queues -/

/-- A workflow that has not begun may be given another id. -/
theorem assignId_upholds (id : Int) (e : Engine σ) :
    (assignId w id).Ends e (fun _ e' => Upholds e e' ∧ (e'.workflow w).state = .created)
      (fun _ => Upholds e) := by
  have hrenamed : (e.workflow w).state = .created → Upholds e (e.mapWorkflow w (·.renamed id)) :=
    fun hst => upholds_mapWorkflow (Workflow.abides_of_created hst fun _ hm => hm) (.inl rfl)
  refine (assignId_ends w id e).mono ?_ ?_
  · rintro _ e' ⟨hst, -, rfl⟩
    refine ⟨IsTrans.trans _ _ _ (hrenamed hst) (upholds_mapStep_of_same rfl rfl), ?_⟩
    rw [workflow_mapStep, workflow_mapWorkflow]
    split <;> exact hst
  · rintro _ e' (rfl | ⟨hst, -, rfl⟩)
    · exact refl _
    · exact hrenamed hst

theorem accept_upholds (hst : (e.workflow w).state = .created) :
    (accept m w).Ends e (fun _ e' => Upholds e e' ∧ (e'.workflow w).state = .created)
      (fun _ => Upholds e) := by
  unfold accept
  rw [ends_bind, ends_get]
  dsimp only
  split
  · unfold takeId
    simp only [ends_bind, ends_get, ends_updateManager, ends_pure]
    have htaken : Upholds e (e.mapManager m fun mg => { mg with nextId := (e.manager m).nextId + 1 }) :=
      upholds_mapManager rfl (fun hk => hk) fun _ _ _ hr => .inl hr
    exact (assignId_upholds _ _).mono (fun _ _ h₁ => ⟨IsTrans.trans _ _ _ htaken h₁.1, h₁.2⟩)
      fun _ _ h₁ => IsTrans.trans _ _ _ htaken h₁
  · rw [ends_failIf]
    split
    · exact refl e
    · exact ⟨refl e, hst⟩

/-- A workflow that is registered has to begin at once: only then is it listed properly. -/
theorem upholds_enrolled (m : ManagerId) (hw : e.HasWorkflow w) (hst : (e.workflow w).state = .created)
    (t : Instant) :
    Upholds e (((e.mapManager m fun mg =>
      { mg with running := Entries.put (e.workflow w).id w mg.running }).mapWorkflow w fun wf =>
        { wf with listeners := wf.listeners ++ [.manager m] }).mapWorkflow w (·.resumed t)) := by
  -- The workflow is listened to and running before the manager lists it, so that each change upholds by
  -- itself.
  rw [mapWorkflow_mapWorkflow, ← mapManager_mapWorkflow]
  obtain ⟨e₁, he₁⟩ : ∃ e₁, e₁ = e.mapWorkflow w fun wf =>
    ({ wf with listeners := wf.listeners ++ [.manager m] } : Workflow).resumed t := ⟨_, rfl⟩
  have hwf : e₁.workflow w =
      ({ e.workflow w with listeners := (e.workflow w).listeners ++ [.manager m] } : Workflow).resumed t := by
    rw [he₁, workflow_mapWorkflow_self _ hw]
  have hbegun : Upholds e e₁ := by
    rw [he₁]
    refine upholds_mapWorkflow (Workflow.abides_of_created hst fun n hn => ?_) (.inl rfl)
    exact List.mem_append_left _ hn
  have hlisted : Upholds e₁ (e₁.mapManager m fun mg =>
      { mg with running := Entries.put (e.workflow w).id w mg.running }) := by
    refine upholds_mapManager rfl (fun hk => Entries.nodup_keys_put hk _ _) fun hk id v hv => ?_
    rw [Entries.get?_put] at hv
    split at hv
    · rename_i hid
      obtain rfl := Option.some.inj hv
      refine .inr ⟨?_, ?_, ?_, ?_⟩
      · rw [he₁]
        exact (hasWorkflow_mapWorkflow ..).mpr hw
      · rw [hwf]
        exact hid
      · rw [hwf]
        exact List.mem_append_right _ List.mem_cons_self
      · rw [hwf]
        intro hcreated
        cases hcreated
    · exact .inl hv
  rw [← he₁]
  exact IsTrans.trans _ _ _ hbegun hlisted

theorem reassign_upholds : (reassign s actor : Act σ Unit).Always Upholds :=
  always_get.bind fun _ => (always_failIf _ _).bind fun _ => (always_failIf _ _).bind fun _ =>
    (always_failIf _ _).bind fun _ => works_upholds.note.bind fun _ =>
      always_modify fun _ => upholds_mapStep_of_same rfl rfl

section Managing

variable (hh : Upholding h)
include hh

theorem startManaged_upholds (hw : e.HasWorkflow w) :
    (startManaged h m w context).Ends e (fun _ => Upholds e) (fun _ => Upholds e) := by
  refine ends_upholds fun hc => ?_
  unfold startManaged
  rw [ends_bind, ends_get, ends_bind, ends_failIf]
  split
  · exact refl e
  rename_i hst
  have hst : (e.workflow w).state = .created := by simpa using hst
  rw [ends_bind]
  refine (accept_upholds hst).mono ?_ fun _ _ h₁ => h₁
  rintro _ e₁ ⟨h₁, hst₁⟩
  have hw₁ : e₁.HasWorkflow w := (h₁ hc).hasWorkflow w hw
  rw [ends_bind]
  refine ends_register fun e₂ h₂ => ?_
  have hst₂ : (e₂.workflow w).state = .created := by
    rw [workflow_of_core h₂, workflow_mapWorkflow]
    split <;> exact hst₁
  -- Until the workflow has begun the engine is not coherent, but no hook is called before.
  refine advance_enters (fun ht => ?_) (fun hs => ?_) (fun hs => ?_) fun _ kind _ t e₃ h₃ => ?_
  · rw [hst₂] at ht
    contradiction
  · rw [hst₂] at hs
    contradiction
  · rw [hst₂] at hs
    contradiction
  · have hbegun : Upholds e e₃ := by
      refine IsTrans.trans _ _ _ h₁ ?_
      refine IsTrans.trans _ _ _ (upholds_enrolled m hw₁ hst₁ t) (upholds_of_core ?_)
      rw [h₃.core]
      exact congrArg (fun c : Core => { c with workflows := c.workflows.modify w.index (·.resumed t) }) h₂
    exact (((emit_upholds hh.observe kind).bind fun _ => process_upholds hh).ends e₃).after hbegun

theorem decideQueued_upholds : (decideQueued h q s o actor).Always Upholds :=
  (always_requireQueued q s).bind fun _ => always_get.bind fun _ => (always_failIf _ _).bind fun _ =>
    (works_upholds.resolve o).bind fun _ => always_get.bind fun _ => (dequeue_upholds hh.observe).onlyIf _

theorem reassignQueued_upholds : (reassignQueued h q s actor).Always Upholds :=
  (always_requireQueued q s).bind fun _ => always_get.bind fun _ => reassign_upholds.bind fun _ =>
    emitQueue_upholds hh.observe rfl

theorem decide_upholds : (decide h m s o actor context).Always Upholds := by
  refine always_get.bind fun e => ?_
  dsimp only
  split
  · exact (always_numberOf s).bind fun _ => always_throw _
  · exact (decideQueued_upholds hh).bind fun _ => advance_upholds hh

end Managing

/-! ## Making -/

/-- A new queue reads as no queue does. -/
theorem queue_of_push (hp : e'.queues = e.queues.push {}) (q : QueueId) : e'.queue q = e.queue q := by
  unfold Engine.queue
  rw [hp, Array.getD_eq_getD_getElem?, Array.getD_eq_getD_getElem?, Array.getElem?_push]
  split
  · rename_i hq
    rw [hq, Array.getElem?_eq_none (Nat.le_refl _)]
    rfl
  · rfl

theorem manager_of_push {mg : Manager} (hp : e'.managers = e.managers.push mg) (m : ManagerId) :
    e'.manager m = if m = ⟨e.managers.size⟩ then mg else e.manager m := by
  unfold Engine.manager
  rw [hp, Array.getD_eq_getD_getElem?, Array.getD_eq_getD_getElem?, Array.getElem?_push]
  have hm : m.index = e.managers.size ↔ m = ⟨e.managers.size⟩ := by cases m; simp
  simp only [hm]
  split <;> rfl

theorem hasManager_of_push {mg : Manager} (hp : e'.managers = e.managers.push mg) (m : ManagerId) :
    e'.HasManager m ↔ e.HasManager m ∨ m = ⟨e.managers.size⟩ := by
  have hm : m = ⟨e.managers.size⟩ ↔ m.index = e.managers.size := by cases m; simp
  rw [hm, HasManager, HasManager, hp, Array.size_push]
  omega

theorem addStep_upholds {st : Step} (hst : st.Unlinked) : (addStep st : Act σ StepId).Always Upholds := by
  intro e hc
  show Intact e (e.added st)
  have hs : ∀ t, e.HasStep t → (e.added st).HasStep t := fun t ht => (hasStep_added e st t).mpr (.inl ht)
  refine Coherent.intact_of_workflows (hc.of_steps rfl rfl rfl hs ?_ ?_) hs rfl
  · intro u t ht
    apply hs
    unfold targets at ht
    rw [step_added] at ht
    split at ht
    · obtain ⟨x, hx, hxt⟩ := List.mem_filterMap.mp ht
      rw [hst x hx] at hxt
      contradiction
    · exact hc.targets u t ht
  · intro u hu
    rw [step_added, if_neg (ne_nextStep (hasStep_of_isDecision hu))]
    exact hu

/-- A step that is there may be registered to follow. -/
theorem addSuccessor_upholds (ht : ∀ t ∈ target, e.HasStep t) :
    Upholds e (e.mapStep s (·.withSuccessor o target)) := by
  apply upholds_mapStep
  · intro x hx t hxt
    rcases Successor.target_of_mem_register hx with hx | hx
    · rw [hx] at hxt
      exact .inr (ht t hxt)
    · exact .inl (List.mem_filterMap.mpr ⟨x, hx, hxt⟩)
  · exact id

theorem setSuccessor_upholds (ht : ∀ t ∈ target, e.HasStep t) :
    (setSuccessor s target).Ends e (fun _ => Upholds e) (fun _ => Upholds e) := by
  unfold setSuccessor addSuccessor
  rw [ends_bind, ends_get, ends_bind, ends_failIf]
  split
  · exact refl e
  · exact addSuccessor_upholds ht

/-- A new workflow starts on a step that is there. -/
theorem addWorkflow_upholds (hs : e.HasStep s) (key : String) (owner : Option Actor) (id : Int)
    (values : Context) :
    (addWorkflow key s owner id values).Ends e (fun _ => Upholds e) (fun _ => Upholds e) := by
  refine (addWorkflow_ends key s owner id values e).mono ?_ fun _ _ he => by rw [he.2]; exact refl e
  rintro _ e' ⟨-, -, wf, hwf, he'⟩
  have hpush : e'.workflows = (e.mapStep s (·.boundTo wf)).workflows.push wf := by rw [he']; rfl
  refine IsTrans.trans _ _ _ (upholds_mapStep_of_same rfl rfl : Upholds e (e.mapStep s (·.boundTo wf))) ?_
  generalize hbound : e.mapStep s (·.boundTo wf) = e₁ at he' hpush
  have hsteps : e'.steps = e₁.steps := by rw [he']
  intro hc
  apply hc.of_workflows hsteps (by rw [he']) (by rw [he'])
  · exact fun v hv => (hasWorkflow_of_push hpush v).mpr (.inl hv)
  · intro v
    rw [workflow_of_push hpush]
    split
    · rename_i hv
      have hblank : e₁.workflow v = default := by
        rw [hv]
        exact workflow_of_not_hasWorkflow (Nat.lt_irrefl _)
      rw [hblank]
      exact Workflow.abides_of_created rfl fun _ hm => absurd hm List.not_mem_nil
    · exact Workflow.abides_refl _
  · intro v hv
    rcases (hasWorkflow_of_push hpush v).mp hv with hv | rfl
    · rw [workflow_of_push_old hpush hv]
      exact hc.current v hv
    · rw [workflow_of_push_new hpush, hwf, ← hbound]
      exact (hasStep_mapStep e s s _).mpr hs

/-- A new queue is empty. -/
theorem addQueue_upholds : (addQueue : Act σ QueueId).Always Upholds := by
  intro e hc
  show Intact e { e with queues := e.queues.push {} }
  refine Coherent.intact_of_workflows ?_ (fun _ hs => hs) rfl
  refine
    { hc with
      hasQueue := fun m hm => ?_
      decisions := fun q s hs => ?_
      registered := fun m id w hr => (hc.registered m id w hr).mono (fun hw => hw) (Workflow.abides_refl _) }
  · exact Nat.lt_of_lt_of_le (hc.hasQueue m hm) (by simp)
  · apply hc.decisions q
    rw [queue_of_push rfl] at hs
    exact hs

/-- A new manager has a new queue and nothing to do. -/
theorem Coherent.employs (hc : Coherent e) {settings : Settings} (hs : e'.steps = e.steps)
    (hw : e'.workflows = e.workflows) (hq : e'.queues = e.queues.push {})
    (hm : e'.managers = e.managers.push { settings, queue := ⟨e.queues.size⟩ }) : Coherent e' := by
  -- No manager has had the queue that is added with it.
  have hfresh : ∀ m, e.HasManager m → (e.manager m).queue ≠ ⟨e.queues.size⟩ := by
    intro m hm hq
    have hqueue := hc.hasQueue m hm
    rw [hq] at hqueue
    exact Nat.lt_irrefl _ hqueue
  have hlast : ∀ m, e.HasManager m → m ≠ ⟨e.managers.size⟩ := by
    rintro m hm rfl
    exact Nat.lt_irrefl _ hm
  refine
    { current := fun w hw' => ?_
      targets := hc.targets_of_steps hs
      hasQueue := fun m hm' => ?_
      ownQueue := fun m n hm' hn' hmn => ?_
      decisions := fun q s hs' => ?_
      keys := fun m => ?_
      registered := fun m id w hr => ?_ }
  · rw [hasStep_of_steps hs, workflow_of_workflows hw]
    exact hc.current w ((hasWorkflow_of_workflows hw w).mp hw')
  · rw [manager_of_push hm]
    unfold HasQueue
    rw [hq, Array.size_push]
    split
    · exact Nat.lt_succ_self _
    · rename_i hne
      have hold := ((hasManager_of_push hm m).mp hm').resolve_right hne
      exact Nat.lt_succ_of_lt (hc.hasQueue m hold)
  · rw [manager_of_push hm, manager_of_push hm] at hmn
    rcases (hasManager_of_push hm m).mp hm' with hm' | rfl <;>
      rcases (hasManager_of_push hm n).mp hn' with hn' | rfl
    · rw [if_neg (hlast m hm'), if_neg (hlast n hn')] at hmn
      exact hc.ownQueue m n hm' hn' hmn
    · rw [if_neg (hlast m hm'), if_pos rfl] at hmn
      exact absurd hmn (hfresh m hm')
    · rw [if_neg (hlast n hn'), if_pos rfl] at hmn
      exact absurd hmn.symm (hfresh n hn')
    · rfl
  · rw [queue_of_push hq] at hs'
    rw [step_of_steps hs]
    exact hc.decisions q s hs'
  · rw [manager_of_push hm]
    split
    · exact List.nodup_nil
    · exact hc.keys m
  · unfold running? at hr
    rw [manager_of_push hm] at hr
    split at hr
    · contradiction
    · apply (hc.registered m id w hr).mono (hasWorkflow_of_workflows hw w).mpr
      rw [workflow_of_workflows hw]
      exact Workflow.abides_refl _

theorem addManager_upholds (settings : Settings) : (addManager settings : Act σ ManagerId).Always Upholds := by
  refine always_of_ends fun e => ?_
  unfold addManager addQueue
  rw [ends_bind, ends_modifyGet, ends_modifyGet]
  intro hc
  exact Coherent.intact_of_workflows (hc.employs rfl rfl rfl rfl) (fun _ hs => hs) rfl

/-! ## Approval workflows -/

/-- The decision of a plan leads to its completion and to the notice, which is made with it. -/
theorem asking_upholds (plan : ApprovalPlan) (approver : Actor) (n k : Nat)
    (hcompletion : ∀ t ∈ plan.completion, e.HasStep t) : Upholds e (e.asking plan approver n k) := by
  intro hc
  have hs : ∀ s, e.HasStep s → (e.asking plan approver n k).HasStep s :=
    fun s hs => (hasStep_asking e plan approver n k).mpr (.inl hs)
  have hsame : ∀ s, e.HasStep s → (e.asking plan approver n k).step s = e.step s :=
    fun s hs => step_asking_of_hasStep plan approver n k hs
  have hframe : (e.asking plan approver n k).workflows = e.workflows ∧
      (e.asking plan approver n k).queues = e.queues ∧
        (e.asking plan approver n k).managers = e.managers := by
    unfold asking
    split <;> exact ⟨rfl, rfl, rfl⟩
  refine Coherent.intact_of_workflows (hc.of_steps hframe.1 hframe.2.1 hframe.2.2 hs ?_ ?_) hs hframe.1
  · -- The steps of the plan lead where they did; the question and the notice lead into the plan or to
    -- each other.
    intro s t ht
    by_cases hmade : (e.asking plan approver n k).HasStep s
    · rcases (hasStep_asking e plan approver n k).mp hmade with hold | rfl | hnotice
      · have htargets : (e.asking plan approver n k).targets s = e.targets s :=
          targets_of_successors (by rw [hsame s hold])
        rw [htargets] at ht
        exact hs t (hc.targets s t ht)
      · unfold targets at ht
        rw [step_asking_question] at ht
        have ht : plan.completion = some t ∨ e.noticeOf plan = some t := by
          change t ∈ List.filterMap (fun x : Successor => x.target)
            [⟨.approve, plan.completion⟩, ⟨.deny, e.noticeOf plan⟩, ⟨.reassign, none⟩] at ht
          simpa using ht
        rcases ht with ht | ht
        · exact hs t (hcompletion t ht)
        · exact (hasStep_asking e plan approver n k).mpr (.inr (.inr ht))
      · obtain ⟨key, -, hstep⟩ := step_asking_notice approver n k hnotice
        unfold targets at ht
        rw [hstep] at ht
        contradiction
    · rw [targets_of_not_hasStep hmade] at ht
      contradiction
  · intro s hd
    rw [hsame s (hasStep_of_isDecision hd)]
    exact hd

theorem connect_upholds {plan : ApprovalPlan} {decision? : Option StepId} (hc : Coherent e)
    (hprep : ∀ t ∈ plan.preparation, e.HasStep t) (hcompletion : ∀ t ∈ plan.completion, e.HasStep t)
    (hdecision : ∀ t ∈ decision?, e.HasStep t) :
    (connect plan decision?).Ends e (fun first e' => Intact e e' ∧ e'.HasStep first)
      (fun _ => Intact e) := by
  have hsecond : ∀ t ∈ decision?.or plan.completion, e.HasStep t := by
    intro t ht
    rcases Option.or_eq_some_iff.mp ht with ht | ⟨-, ht⟩
    · exact hdecision t ht
    · exact hcompletion t ht
  unfold connect
  split
  · rename_i prep hp
    rw [ends_bind]
    refine (setSuccessor_upholds hsecond).mono (fun _ e₁ h₁ => ?_) fun _ _ h₁ => h₁ hc
    exact ⟨h₁ hc, (h₁ hc).hasStep prep (hprep prep hp)⟩
  · rename_i completion _ hp
    refine ⟨hc.intact, ?_⟩
    cases hd : decision?.or plan.completion with
    | none => exact hcompletion completion hp
    | some t => exact hsecond t hd
  · exact hc.intact

theorem addApprovalWorkflow_upholds (plan : ApprovalPlan)
    (hprep : ∀ t ∈ plan.preparation, e.HasStep t) (hcompletion : ∀ t ∈ plan.completion, e.HasStep t) :
    (addApprovalWorkflow m plan).Ends e (fun _ => Upholds e) (fun _ => Upholds e) := by
  refine ends_upholds fun hc => ?_
  -- Once the decision is there, if any, the rest is to connect the steps and to make the workflow.
  have hrest : ∀ (decision? : Option StepId) (extras : Entries String Value) (e₁ : Engine σ),
      Intact e e₁ → (∀ t ∈ decision?, e₁.HasStep t) →
        (connect plan decision? >>= fun first =>
          note builderLogger .debug "Built approval workflow" extras >>= fun _ =>
            addWorkflow plan.key first plan.submitter 0 []).Ends e₁ (fun _ => Upholds e)
              (fun _ => Upholds e) := by
    intro decision? extras e₁ h₁ hdecision
    rw [ends_bind]
    refine (connect_upholds h₁.coherent (fun t ht => h₁.hasStep t (hprep t ht))
      (fun t ht => h₁.hasStep t (hcompletion t ht)) hdecision).mono ?_ fun _ _ h₂ _ => h₁.trans h₂
    rintro first e₂ ⟨h₂, hfirst⟩
    rw [ends_bind, ends_note]
    have hnoted : ∀ j, Upholds e (e₂.aside j e₂.clock) := fun j _ =>
      h₁.trans (h₂.trans (upholds_aside e₂ j e₂.clock h₂.coherent))
    exact (addWorkflow_upholds (by exact hfirst) plan.key plan.submitter 0 []).after (hnoted _)
  unfold addApprovalWorkflow
  rw [ends_bind, ends_get]
  dsimp only
  cases (e.manager m).settings.approver? plan.key with
  | none => exact hrest none _ e hc.intact nofun
  | some approver =>
    dsimp only
    rw [ends_bind]
    show Ends (addApproval plan approver >>= fun d => pure (some d)) e _ _
    rw [ends_bind]
    refine (addApproval_ends plan approver e).mono ?_ fun _ _ => False.elim
    rintro d e₁ ⟨rfl, n, k, h₁⟩
    have hasked : Upholds e e₁ := IsTrans.trans _ _ _ (asking_upholds plan approver n k hcompletion)
      (upholds_of_core h₁.core)
    refine hrest (some e.nextStep) _ e₁ (hasked hc) fun t ht => ?_
    obtain rfl := Option.some.inj ht
    exact (hasStep_of_core h₁.core _).mpr ((hasStep_asking e plan approver n k).mpr (.inr (.inl rfl)))

/-! ## Activities -/

/-- What may be done with the engine, calling it with the hooks `below`. The steps and workflows that are
referred to have to be there, and only decisions are put into a queue. -/
inductive Activity (below : Hooks σ γ → Prop) : {α : Type} → Act σ α → Prop
  | calm {α : Type} {m : Act σ α} (h : m.Always fun e e' => e'.core = e.core) : Activity below m
  | addTask (kind key : String) (actor : Option Actor) : Activity below (addTask kind key actor)
  | addDecision (kind key : String) (actor : Option Actor) (outcomes : List Outcome)
      (reassignable : Bool) : Activity below (addDecision kind key actor outcomes reassignable)
  | addNotification (kind key : String) (actor : Option Actor) :
      Activity below (addNotification kind key actor)
  | addSuccessor (s : StepId) (o : Outcome) (target : Option StepId) :
      Activity below (provided (fun e => ∀ t ∈ target, e.HasStep t) (addSuccessor s o target))
  | setSuccessor (s : StepId) (target : Option StepId) :
      Activity below (provided (fun e => ∀ t ∈ target, e.HasStep t) (setSuccessor s target))
  | addFact (s : StepId) (f : Fact) : Activity below (addFact s f)
  | addError (s : StepId) (message : String) : Activity below (addError s message)
  | bindStep (s : StepId) (id : Int) (c : ContextId) : Activity below (bindStep s id c)
  | start (h : Hooks σ γ) (s : StepId) (hb : below h) : Activity below (start h s)
  | execute (h : Hooks σ γ) (s : StepId) (context : γ) (hb : below h) :
      Activity below (execute h s context)
  | setOutcome (s : StepId) (o : Outcome) : Activity below (setOutcome s o)
  | resolve (s : StepId) (o : Outcome) : Activity below (resolve s o)
  | reassign (s : StepId) (actor : Option Actor) : Activity below (reassign s actor)
  | addQueue : Activity below addQueue
  | addManager (settings : Settings) : Activity below (addManager settings)
  | listenToQueue (q : QueueId) (l : ListenerId) : Activity below (listenToQueue q l)
  | enqueue (h : Hooks σ γ) (q : QueueId) (s : StepId) (hb : below h) :
      Activity below (provided (fun e => (e.step s).isDecision = true) (enqueue h q s))
  | dequeue (h : Hooks σ γ) (q : QueueId) (s : StepId) (hb : below h) : Activity below (dequeue h q s)
  | decideQueued (h : Hooks σ γ) (q : QueueId) (s : StepId) (o : Outcome) (actor : Option Actor)
      (hb : below h) : Activity below (decideQueued h q s o actor)
  | reassignQueued (h : Hooks σ γ) (q : QueueId) (s : StepId) (actor : Option Actor) (hb : below h) :
      Activity below (reassignQueued h q s actor)
  | addWorkflow (key : String) (first : StepId) (owner : Option Actor) (id : Int) (values : Context) :
      Activity below (provided (·.HasStep first) (addWorkflow key first owner id values))
  | addApprovalWorkflow (m : ManagerId) (plan : ApprovalPlan) :
      Activity below (provided (fun e => (∀ t ∈ plan.preparation, e.HasStep t) ∧
        ∀ t ∈ plan.completion, e.HasStep t) (addApprovalWorkflow m plan))
  | assignId (w : WorkflowId) (id : Int) : Activity below (assignId w id)
  | listenTo (w : WorkflowId) (l : Listener) : Activity below (listenTo w l)
  | unlisten (w : WorkflowId) (l : ListenerId) : Activity below (unlisten w (.observer l))
  | addMessageArgument (w : WorkflowId) (v : Value) : Activity below (addMessageArgument w v)
  | advance (h : Hooks σ γ) (w : WorkflowId) (context : γ) (hb : below h) :
      Activity below (advance h w context)
  | abort (h : Hooks σ γ) (w : WorkflowId) (hb : below h) : Activity below (abort h w)
  | startManaged (h : Hooks σ γ) (m : ManagerId) (w : WorkflowId) (context : γ) (hb : below h) :
      Activity below (provided (·.HasWorkflow w) (startManaged h m w context))
  | decide (h : Hooks σ γ) (m : ManagerId) (s : StepId) (o : Outcome) (actor : Option Actor)
      (context : γ) (hb : below h) : Activity below (decide h m s o actor context)
  | bind {α β : Type} {m : Act σ α} {f : α → Act σ β} (hm : Activity below m)
      (hf : ∀ a, Activity below (f a)) : Activity below (m >>= f)
  | tryCatch {α : Type} {m : Act σ α} {handle : Failure → Act σ α} (hm : Activity below m)
      (hf : ∀ x, Activity below (handle x)) : Activity below (tryCatch m handle)

/-- Hooks and listeners that are active themselves, a finite number of levels deep. -/
inductive Active : Hooks σ γ → Prop
  | intro (h : Hooks σ γ) (below : Hooks σ γ → Prop) (nested : ∀ h', below h' → Active h')
      (starting : ∀ s, Activity below (h.starting s))
      (execute : ∀ s context, Activity below (h.execute s context))
      (present : ∀ s context, Activity below (h.present s context))
      (observe : ∀ l event, Activity below (h.observe l event)) : Active h

theorem provided_upholds {p : Engine σ → Prop} [DecidablePred p] {m : Act σ α}
    (hm : ∀ e, p e → m.Ends e (fun _ => Upholds e) (fun _ => Upholds e)) :
    (provided p m).Always Upholds := by
  refine always_of_ends fun e => ?_
  unfold provided
  rw [ends_bind, ends_get]
  split
  · rename_i hp
    exact hm e hp
  · exact (always_throw _).ends e

theorem unlisten_upholds (l : ListenerId) : (unlisten w (.observer l) : Act σ Unit).Always Upholds := by
  refine always_get.bind fun _ => (always_failIf _ _).bind fun _ => ?_
  refine updateWorkflow_upholds (fun wf => ⟨fun _ => rfl, fun hb => ⟨hb, rfl⟩, fun m hm => ?_⟩) fun _ => rfl
  have hne : Listener.manager m ≠ .observer l := nofun
  exact (List.mem_erase_of_ne hne).mpr hm

/-- What is done with hooks that uphold the engine upholds it. -/
theorem Activity.upholds {below : Hooks σ γ → Prop} {m : Act σ α} (hb : ∀ h, below h → Upholding h)
    (hm : Activity below m) : m.Always Upholds := by
  have takeNumber_upholds : (takeNumber : Act σ Nat).Always Upholds :=
    always_modifyGet fun _ => upholds_of_core rfl
  have unlinked : ∀ (st : Step) os, st.successors = [] → (st.withOutcomes os).Unlinked := by
    intro st os hst
    refine Step.Unlinked.withOutcomes (fun x hx => ?_) os
    rw [hst] at hx
    contradiction
  -- By how the activity is composed; an action that runs hooks rests on what those below uphold.
  induction hm with
  | calm h => exact h.mono upholds_of_core
  | addTask kind key actor => exact addStep_upholds (unlinked _ _ rfl)
  | addDecision kind key actor outcomes reassignable =>
    exact takeNumber_upholds.bind fun _ => addStep_upholds (unlinked _ _ rfl)
  | addNotification kind key actor =>
    exact takeNumber_upholds.bind fun n => addStep_upholds (unlinked
      { kind, key, actor, decision := some { number := n, reassignable := false } } _ rfl)
  | addSuccessor s o target => exact provided_upholds fun e ht => addSuccessor_upholds ht
  | setSuccessor s target => exact provided_upholds fun e ht => setSuccessor_upholds ht
  | addFact s f =>
    refine always_get.bind fun _ => (always_failIf _ _).bind fun _ => always_modify fun _ => ?_
    refine upholds_mapStep_of_same rfl ?_
    simp only [Step.isDecision, Option.isSome_map]
  | addError s message => exact always_modify fun _ => upholds_mapStep_of_same rfl rfl
  | bindStep s id c => exact bindStep_upholds c
  | start h s hbelow => exact works_upholds.start ((hb h hbelow).starting s)
  | execute h s context hbelow =>
    exact works_upholds.execute ((hb h hbelow).execute s context) ((hb h hbelow).present s context)
  | setOutcome s o => exact works_upholds.setOutcome o
  | resolve s o => exact works_upholds.resolve o
  | reassign s actor => exact reassign_upholds
  | addQueue => exact addQueue_upholds
  | addManager settings => exact addManager_upholds settings
  | listenToQueue q l => exact updateQueue_upholds fun _ _ hs => hs
  | enqueue h q s hbelow => exact provided_upholds fun e hs => enqueue_upholds (hb h hbelow).observe hs
  | dequeue h q s hbelow => exact dequeue_upholds (hb h hbelow).observe
  | decideQueued h q s o actor hbelow => exact decideQueued_upholds (hb h hbelow)
  | reassignQueued h q s actor hbelow => exact reassignQueued_upholds (hb h hbelow)
  | addWorkflow key first owner id values =>
    exact provided_upholds fun e hs => addWorkflow_upholds hs key owner id values
  | addApprovalWorkflow m plan =>
    exact provided_upholds fun e hs => addApprovalWorkflow_upholds plan hs.1 hs.2
  | assignId w id =>
    exact always_of_ends fun e => (assignId_upholds id e).mono (fun _ _ h₁ => h₁.1) fun _ _ h₁ => h₁
  | listenTo w l =>
    refine updateWorkflow_upholds (fun wf => ⟨fun _ => rfl, fun hb => ⟨hb, rfl⟩, fun m hm => ?_⟩) fun _ => rfl
    exact List.mem_append_left _ hm
  | unlisten w l => exact unlisten_upholds l
  | addMessageArgument w v =>
    unfold Engine.addMessageArgument
    split
    · exact updateWorkflow_upholds (fun _ => Workflow.abides_of_same rfl rfl rfl) fun _ => rfl
    · exact always_throw _
  | advance h w context hbelow => exact advance_upholds (hb h hbelow)
  | abort h w hbelow => exact abort_upholds (hb h hbelow)
  | startManaged h m w context hbelow =>
    exact provided_upholds fun e hw => startManaged_upholds (hb h hbelow) hw
  | decide h m s o actor context hbelow => exact decide_upholds (hb h hbelow)
  | bind _ _ ihm ihf => exact ihm.bind ihf
  | tryCatch _ _ ihm ihf => exact ihm.tryCatch ihf

theorem Active.upholding (hh : Active h) : Upholding h := by
  induction hh with
  | intro h below nested starting execute present observe ih =>
    exact ⟨fun s => (starting s).upholds ih, fun s context => (execute s context).upholds ih,
      fun s context => (present s context).upholds ih, fun l event => (observe l event).upholds ih⟩

theorem active_of_quiet (hq : h.Quiet) : Active h :=
  .intro h (fun _ => False) (fun _ => False.elim) (fun s => .calm (hq.starting s))
    (fun s context => .calm (hq.execute s context)) (fun s context => .calm (hq.present s context))
    fun l event => .calm (hq.observe l event)

/-- An engine in which nothing has been made is coherent. -/
theorem coherent_of_blank (he : e.core = ⟨#[], #[], #[], #[]⟩) : Coherent e := by
  have hworkflow : ∀ w, ¬e.HasWorkflow w := by
    intro w hw
    unfold HasWorkflow at hw
    rw [show e.workflows = #[] from congrArg Core.workflows he] at hw
    exact absurd hw (Nat.not_lt_zero _)
  have hmanager : ∀ m, ¬e.HasManager m := by
    intro m hm
    unfold HasManager at hm
    rw [show e.managers = #[] from congrArg Core.managers he] at hm
    exact absurd hm (Nat.not_lt_zero _)
  have hidle : ∀ m, (e.manager m).running = [] := by
    intro m
    unfold Engine.manager
    rw [show e.managers = #[] from congrArg Core.managers he]
    rfl
  refine
    { current := fun w hw => absurd hw (hworkflow w)
      targets := fun s t ht => ?_
      hasQueue := fun m hm => absurd hm (hmanager m)
      ownQueue := fun m _ hm => absurd hm (hmanager m)
      decisions := fun q s hs => ?_
      keys := fun m => ?_
      registered := fun m id w hr => ?_ }
  · unfold targets Engine.step at ht
    rw [show e.steps = #[] from congrArg Core.steps he] at ht
    contradiction
  · unfold Engine.queue at hs
    rw [show e.queues = #[] from congrArg Core.queues he] at hs
    contradiction
  · rw [hidle]
    exact List.nodup_nil
  · unfold running? at hr
    rw [hidle] at hr
    contradiction

end Engine

end ApprovalFlow
