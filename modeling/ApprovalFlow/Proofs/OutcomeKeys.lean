import ApprovalFlow.Proofs.Recordability

/-!
# Outcomes under their keys

A step is made with no two outcomes under one key, and to register what follows an outcome gives it no second
one. So however the engine is called, by hooks and listeners too, the keys of a step's outcomes tell them
apart (`keyed_throughout`), as is needed to read a record.
-/

namespace ApprovalFlow.Engine

open Act

variable {σ γ α : Type} {w : WorkflowId} {s : StepId} {m : ManagerId}

def StaysKeyed (e e' : Engine σ) : Prop := e.Keyed → e'.Keyed

instance : IsPreorder (Engine σ) StaysKeyed where
  refl _ := id
  trans _ _ _ h h' hk := h' (h hk)

theorem staysKeyed_of_steps {e e' : Engine σ} (hs : e'.steps = e.steps) : StaysKeyed e e' := by
  intro hk s
  rw [step_of_steps hs]
  exact hk s

theorem staysKeyed_mapStep {e : Engine σ} {f : Step → Step} (hf : (e.step s).Keyed → (f (e.step s)).Keyed) :
    StaysKeyed e (e.mapStep s f) :=
  fun hk t => step_mapStep_keeps hf (hk t)

theorem staysKeyed_of_successors {e : Engine σ} {f : Step → Step}
    (hf : (f (e.step s)).successors = (e.step s).successors) : StaysKeyed e (e.mapStep s f) := by
  refine staysKeyed_mapStep fun hk => ?_
  rw [Step.keyed_iff] at hk ⊢
  rwa [hf]

theorem staysKeyed_added {e : Engine σ} {st : Step} (hst : st.Keyed) : StaysKeyed e (e.added st) := by
  intro hk s
  rw [step_added]
  split
  · exact hst
  · exact hk s

theorem governs_staysKeyed : Governs (StaysKeyed (σ := σ)) where
  off hs _ _ _ _ := staysKeyed_of_steps hs
  work _ _ _ hf := staysKeyed_of_successors (Step.successors_of_frame hf.frame)
  workflow _ _ _ _ := id
  bind _ _ _ _ := staysKeyed_of_successors rfl
  reassign _ _ _ _ := staysKeyed_of_successors rfl

theorem addSuccessor_staysKeyed (o : Outcome) (target : Option StepId) :
    (addSuccessor s o target : Act σ Unit).Always StaysKeyed :=
  always_modify fun _ => staysKeyed_mapStep fun hk => hk.withSuccessor o target

theorem setSuccessor_staysKeyed (target : Option StepId) :
    (setSuccessor s target : Act σ Unit).Always StaysKeyed :=
  always_get.bind fun _ => (always_failIf _ _).bind fun _ => addSuccessor_staysKeyed _ _

theorem addFact_staysKeyed (f : Fact) : (addFact s f : Act σ Unit).Always StaysKeyed :=
  always_get.bind fun _ => (always_failIf _ _).bind fun _ => always_modify fun _ =>
    staysKeyed_of_successors rfl

theorem addDecision_staysKeyed (kind key : String) (actor : Option Actor) (outcomes : List Outcome)
    (reassignable : Bool) :
    (addDecision kind key actor outcomes reassignable : Act σ StepId).Always StaysKeyed :=
  Always.bind (always_modifyGet fun _ => staysKeyed_of_steps rfl) fun _ =>
    always_modifyGet fun _ => staysKeyed_added (Step.keyed_ofDecision ..)

theorem addNotification_staysKeyed (kind key : String) (actor : Option Actor) :
    (addNotification kind key actor : Act σ StepId).Always StaysKeyed :=
  Always.bind (always_modifyGet fun _ => staysKeyed_of_steps rfl) fun _ =>
    always_modifyGet fun _ => staysKeyed_added (Step.keyed_notification ..)

theorem bindStep_staysKeyed (id : Int) (c : ContextId) : (bindStep s id c : Act σ Unit).Always StaysKeyed :=
  always_get.bind fun _ => (always_failIf _ _).bind fun _ => always_modify fun _ =>
    staysKeyed_of_successors rfl

theorem addWorkflow_staysKeyed (key : String) (owner : Option Actor) (id : Int) (values : Context) :
    (addWorkflow key s owner id values : Act σ WorkflowId).Always StaysKeyed :=
  always_get.bind fun _ => (bindStep_staysKeyed id _).bind fun _ => always_modifyGet fun _ =>
    staysKeyed_of_steps rfl

theorem assignId_staysKeyed (id : Int) : (assignId w id : Act σ Unit).Always StaysKeyed := by
  have hrenamed : (updateWorkflow w ({ · with id }) : Act σ Unit).Always StaysKeyed :=
    governs_staysKeyed.updateWorkflow _ fun _ => rfl
  exact always_get.bind fun _ => (always_failIf _ _).bind fun _ => hrenamed.bind fun _ =>
    bindStep_staysKeyed id _

theorem addApprovalWorkflow_staysKeyed (plan : ApprovalPlan) :
    (addApprovalWorkflow m plan : Act σ WorkflowId).Always StaysKeyed := by
  have happroval : ∀ approver, (addApproval plan approver : Act σ StepId).Always StaysKeyed := by
    intro approver
    refine (addDecision_staysKeyed _ _ _ _ _).bind fun d => (Always.forM _ fun f _ => addFact_staysKeyed f).bind
      fun _ => (addSuccessor_staysKeyed _ _).bind fun _ => ?_
    split
    · exact (addNotification_staysKeyed _ _ _).bind fun _ => (addSuccessor_staysKeyed _ _).bind fun _ =>
        always_pure _
    · exact always_pure _
  have hconnect : ∀ decision?, (connect plan decision? : Act σ StepId).Always StaysKeyed := by
    intro decision?
    unfold connect
    split
    · exact (setSuccessor_staysKeyed _).bind fun _ => always_pure _
    · exact always_pure _
    · exact always_throw _
  refine always_get.bind fun e => ?_
  have hrest : ∀ (decision? : Option StepId) (extras : Entries String Value),
      (connect plan decision? >>= fun first =>
        note builderLogger .debug "Built approval workflow" extras >>= fun _ =>
          addWorkflow plan.key first plan.submitter 0 [] : Act σ WorkflowId).Always StaysKeyed :=
    fun decision? extras => (hconnect decision?).bind fun _ => governs_staysKeyed.note.bind fun _ =>
      addWorkflow_staysKeyed _ _ _ _
  dsimp only
  split
  · exact ((happroval _).bind fun _ => always_pure _).bind fun _ => hrest _ _
  · exact hrest none _

end ApprovalFlow.Engine

namespace ApprovalFlow.Tended

open Act Engine

variable {σ γ α : Type} {e : Engine (Tended σ)}

theorem marking_staysKeyed {p : Engine (Tended σ) → Bool} {m : Act (Tended σ) α}
    (hm : m.Always StaysKeyed) : (marking p m).Always StaysKeyed :=
  always_get.bind fun _ => Always.bind (always_modify fun _ => staysKeyed_of_steps rfl) fun _ => hm

theorem provided_staysKeyed {p : Engine (Tended σ) → Prop} [DecidablePred p] {m : Act (Tended σ) α}
    (hm : m.Always StaysKeyed) : (provided p m).Always StaysKeyed := by
  refine always_get.bind fun e => ?_
  split
  · exact hm
  · exact always_throw _

theorem Program.staysKeyed {below : Hooks (Tended σ) γ → Prop} {m : Act (Tended σ) α}
    (hb : ∀ h, below h → Heeds StaysKeyed h) (hm : Program below m) : m.Always StaysKeyed := by
  have hg : Governs (StaysKeyed (σ := Tended σ)) := governs_staysKeyed
  have hheed : ∀ h, below h → ∀ w, h.Heed StaysKeyed w := fun h hbelow w =>
    ⟨(hb h hbelow).starting, (hb h hbelow).execute, (hb h hbelow).present,
      fun kind _ => hg.emit (hb h hbelow).observe kind⟩
  have hdequeue : ∀ h, below h → ∀ q s, (Engine.dequeue h q s).Always StaysKeyed := fun h hbelow _ _ =>
    hg.dequeue (hb h hbelow).observe
  -- By how the program is composed: only what draws edges has a key to check.
  induction hm with
  | apart h => exact h.mono fun ha => staysKeyed_of_steps ha.steps
  | sight => exact always_get.bind fun _ => always_modify fun _ => staysKeyed_of_steps rfl
  | addTask kind key actor => exact always_modifyGet fun _ => staysKeyed_added (Step.keyed_task ..)
  | addDecision => exact addDecision_staysKeyed _ _ _ _ _
  | addNotification => exact addNotification_staysKeyed _ _ _
  | addSuccessor s o target => exact marking_staysKeyed (addSuccessor_staysKeyed o target)
  | setSuccessor s target => exact marking_staysKeyed (setSuccessor_staysKeyed target)
  | addFact s f => exact addFact_staysKeyed f
  | addError s message => exact always_modify fun _ => staysKeyed_of_successors rfl
  | bindStep s id c => exact bindStep_staysKeyed id c
  | start h s hbelow => exact hg.start ((hb h hbelow).starting s)
  | execute h s context hbelow =>
    exact hg.execute ((hb h hbelow).execute s context) ((hb h hbelow).present s context)
  | setOutcome s o => exact hg.setOutcome o
  | resolve s o => exact hg.resolve o
  | reassign s actor => exact hg.reassignStep
  | enqueue h q s hbelow =>
    exact always_enqueue (fun l event _ => (hb h hbelow).observe l event) hg.apart q s
  | dequeue h q s hbelow => exact hdequeue h hbelow q s
  | decideQueued h q s o actor hbelow => exact hg.decideQueued (hb h hbelow).observe
  | reassignQueued h q s actor hbelow => exact hg.reassignQueued (hb h hbelow).observe
  | addWorkflow => exact addWorkflow_staysKeyed _ _ _ _
  | assignId w id => exact assignId_staysKeyed id
  | listenTo w l => exact hg.updateWorkflow _ fun _ => rfl
  | unlisten w l =>
    exact always_get.bind fun _ => (always_failIf _ _).bind fun _ => hg.updateWorkflow _ fun _ => rfl
  | addMessageArgument w v =>
    unfold Engine.addMessageArgument
    split
    · exact hg.updateWorkflow _ fun _ => rfl
    · exact always_throw _
  | advance h w context hbelow => exact provided_staysKeyed (hg.sustains.advance (hheed h hbelow w))
  | abort h w hbelow => exact hg.abort (hb h hbelow).observe
  | startManaged h m w context hbelow =>
    exact provided_staysKeyed (hg.startManaged (hheed h hbelow w))
  | decide h m s o actor context hbelow =>
    exact provided_staysKeyed (hg.decide (hdequeue h hbelow) (hheed h hbelow))
  | addApprovalWorkflow m plan => exact marking_staysKeyed (addApprovalWorkflow_staysKeyed plan)
  | bind _ _ ihm ihf => exact ihm.bind ihf
  | tryCatch _ _ ihm ihf => exact ihm.tryCatch ihf

/-- However steps and workflows are made and driven, no step has two outcomes under one key. -/
theorem keyed_throughout {m : Act (Tended σ) α}
    (hm : Program (Reenters : Hooks (Tended σ) γ → Prop) m) (hk : e.Keyed) : (m.run e).2.Keyed :=
  hm.staysKeyed (fun _ hh => hh.heeds Program.staysKeyed) e hk

end ApprovalFlow.Tended
