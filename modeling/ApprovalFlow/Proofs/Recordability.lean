import ApprovalFlow.Proofs.Relinking

/-!
# A record can always be taken

Hooks and listeners may call the engine as they like, several levels deep, and so may the caller: they make
steps and workflows, register successors, drive, abort, decide and reassign (`Program`). As long as none of
them registers anew what follows the outcome with which a step was completed, all that a workflow refers to
can be reached from its first step, and a record can be taken, at any time (`recordable_throughout`).
-/

namespace ApprovalFlow.Tended

open Act Engine

variable {σ γ α : Type}

structure Heeds (R : Engine (Tended σ) → Engine (Tended σ) → Prop) (h : Hooks (Tended σ) γ) : Prop where
  starting : ∀ s, (h.starting s).Always R
  execute : ∀ s context, (h.execute s context).Always R
  present : ∀ s context, (h.present s context).Always R
  observe : ∀ l event, (h.observe l event).Always R

variable {h : Hooks (Tended σ) γ} {e e' : Engine (Tended σ)} {w : WorkflowId} {s t : StepId}
  {m : ManagerId} {q : QueueId} {o : Outcome} {actor : Option Actor} {context : γ}

/-! ## Driving -/

theorem moveWorkflow_keeps (next : WorkflowState) : (moveWorkflow w next : Act (Tended σ) Unit).Always Keeps :=
  always_get.bind fun _ => (always_failIf _ _).bind fun _ =>
    Always.bind (always_updateWorkflow fun _ => rfl) fun _ => bears_keeps.note

/-- Going on from a completed step that descends from the first one. -/
theorem follow_reaches (ht : Tends e) (hc : (e.step s).isCompleted = true)
    (hs : e.host.relinked = false → e.Descends (e.workflow w).first s)
    (hn : (e.step s).next? (e.step s).outcome = some t) :
    (follow w s t o).Ends e (fun _ => Reaches e) (fun _ => Reaches e) := by
  simp only [follow, ends_bind, ends_get, ends_failIf, ends_bindStep, ends_updateWorkflow, ends_note]
  split
  · exact ht.reaches
  split
  · exact ht.reaches
  have hbound : Reaches e (e.mapStep t (·.boundTo (e.workflow w))) :=
    keeps_mapStep_of_same rfl rfl rfl ht
  -- Binding the next step moves no edge.
  have hmoved : Keeps (e.mapStep t (·.boundTo (e.workflow w)))
      ((e.mapStep t (·.boundTo (e.workflow w))).mapWorkflow w (·.moved s t)) :=
    keeps_mapWorkflow rfl fun hr h =>
      h.moved ((hs hr).mono (hbound.followed hr)) (hbound.followed hr s t ⟨hc, hn⟩)
  exact (hbound.trans (hmoved hbound.tends)).trans (bears_keeps.aside _ _ rfl (hmoved hbound.tends).tends)

section Driving

variable (hh : Heeds Keeps h)
include hh

theorem finish_keeps (next : WorkflowState) (kind : EventKind) : (finish h w next kind).Always Keeps :=
  (moveWorkflow_keeps next).bind fun _ => bears_keeps.readClock.bind fun _ =>
    Always.bind (always_updateWorkflow fun _ => rfl) fun _ => bears_keeps.emit hh.observe kind

theorem pause_keeps : (pause h w s).Always Keeps := by
  refine always_get.bind fun e => ?_
  dsimp only
  split
  · exact (moveWorkflow_keeps _).bind fun _ => (bears_keeps.emit hh.observe _).bind fun _ => always_pure _
  · exact always_pure _

theorem enter_keeps : (enter h w).Always Keeps := by
  refine always_get.bind fun e => (always_failIf _ _).bind fun _ => ?_
  split
  · split
    · exact (moveWorkflow_keeps _).bind fun _ => (bears_keeps.emit hh.observe _).bind fun _ =>
        always_pure _
    · exact always_pure _
  · exact (moveWorkflow_keeps _).bind fun _ => bears_keeps.readClock.bind fun _ =>
      Always.bind (always_updateWorkflow fun _ => rfl) fun _ =>
        (bears_keeps.emit hh.observe _).bind fun _ => always_pure _
  · exact always_pure _

/-- Leaving a completed step behind that descends from the first one. -/
theorem leave_reaches (ht : Tends e) (hc : (e.step s).isCompleted = true)
    (hs : e.host.relinked = false → e.Descends (e.workflow w).first s) :
    (leave h w s).Ends e (fun _ => Reaches e) (fun _ => Reaches e) := by
  -- Everything after the recording starts from the engine in which the step is recorded.
  obtain ⟨e₁, he₁⟩ : ∃ e₁, e₁ = e.mapWorkflow w (·.left s) := ⟨_, rfl⟩
  have h₁ : Reaches e e₁ := he₁ ▸ keeps_mapWorkflow rfl (fun hr hroot => hroot.left (hs hr)) ht
  have hc₁ : (e₁.step s).isCompleted = true := by
    rw [he₁]
    exact hc
  have hs₁ : e₁.host.relinked = false → e₁.Descends (e₁.workflow w).first s := by
    intro hr
    have hfirst : (e₁.workflow w).first = (e.workflow w).first := by
      rw [he₁]
      exact workflow_mapWorkflow_eq rfl w
    rw [hfirst]
    exact (hs (h₁.relinked hr)).mono (h₁.followed hr)
  have hends : ∀ next kind, (finish h w next kind).Ends e₁ (fun _ => Reaches e) (fun _ => Reaches e) :=
    fun next kind => ((finish_keeps hh next kind).ends e₁).mono (fun _ _ h₂ => h₁.trans (h₂ h₁.tends))
      fun _ _ h₂ => h₁.trans (h₂ h₁.tends)
  unfold leave
  rw [ends_bind, record, ends_updateWorkflow, ends_bind, ends_get]
  show Ends _ (e.mapWorkflow w (·.left s)) _ _
  rw [← he₁]
  dsimp only
  split
  · exact (ends_bind _ _).mpr (hends .aborted _)
  · split
    · exact (ends_bind _ _).mpr (hends .completed _)
    · rename_i t hn
      rw [ends_bind]
      exact (follow_reaches h₁.tends hc₁ hs₁ (he₁ ▸ hn)).mono (fun _ _ h₂ => h₁.trans h₂) fun _ _ h₂ => h₁.trans h₂

/-- Whatever the hooks do, the step that is left behind is the one that the workflow was on, which descends
from the first one still. -/
theorem turn_keeps : (turn h w context).Always (KeepsFor w) := by
  intro e hw ht
  refine Ends.state (P := Reaches e) ?_
  unfold turn
  rw [ends_bind, ends_get, ends_bind, ends_get, ends_bind]
  generalize hcur : (e.workflow w).current = s
  have hrun : (onlyIf (!(e.step s).isCompleted) (runStep h w s context)).Always Keeps :=
    (bears_keeps.runStep (hh.starting s) (hh.execute s context) (hh.present s context)).onlyIf _
  refine (hrun.ends e).mono (fun _ e₁ h₁ => ?_) fun _ _ h₁ => h₁ ht
  -- Hooks may have moved the workflow on meanwhile, but what descends from its first step descends from
  -- it yet.
  have h₁ := h₁ ht
  rw [ends_bind, ends_get]
  cases hc : (e₁.step s).isCompleted
  case true =>
    have hs : e₁.host.relinked = false → e₁.Descends (e₁.workflow w).first s := fun hr =>
      h₁.descends hw hr (hcur ▸ (ht.rooted (h₁.relinked hr) w).current)
    exact (leave_reaches hh h₁.tends hc hs).mono (fun _ _ h₂ => h₁.trans h₂) fun _ _ h₂ => h₁.trans h₂
  case false =>
    exact ((pause_keeps hh).ends e₁).mono (fun _ _ h₂ => h₁.trans (h₂ h₁.tends))
      fun _ _ h₂ => h₁.trans (h₂ h₁.tends)

theorem traverse_keeps (turns : Nat) : (traverse h w context turns).Always (KeepsFor w) := by
  induction turns with
  | zero => exact always_throw _
  | succ turns ih =>
    refine (turn_keeps hh).bind fun progress => ?_
    cases progress with
    | stop state => exact always_pure state
    | goOn => exact ih

theorem advance_keeps : (advance h w context).Always (KeepsFor w) := by
  have henter : (enter h w).Always (KeepsFor w) := (enter_keeps hh).mono fun hk _ => hk
  rw [advance_eq_enter]
  refine henter.bind fun go => ?_
  split
  · exact always_get.bind fun _ => traverse_keeps hh _
  · exact always_pure _

/-- An aborted workflow leaves the step behind that it is on. -/
theorem abort_keeps : (abort h w).Always Keeps := by
  intro e ht
  refine Ends.state (P := Reaches e) ?_
  simp only [abort, ends_bind, ends_get, ends_failIf]
  split
  · exact ht.reaches
  have hclose : ∀ e₁, Reaches e e₁ → e₁.workflow w = e.workflow w →
      (onlyIf ((e.workflow w).history.getLast? != some (e.workflow w).current)
        (record w (e.workflow w).current) >>= fun _ =>
          finish h w .aborted (.aborted Outcome.abort.key)).Ends e₁ (fun _ => Reaches e)
            (fun _ => Reaches e) := by
    intro e₁ h₁ hwf
    have hrecord : (record w (e.workflow w).current).Ends e₁ (fun _ => Keeps e₁) (fun _ => Keeps e₁) :=
      keeps_mapWorkflow rfl fun _ hr => hr.left (hwf ▸ hr.current)
    have hend : ∀ e₂, Reaches e e₂ → (finish h w .aborted (.aborted Outcome.abort.key)).Ends e₂
        (fun _ => Reaches e) (fun _ => Reaches e) := fun e₂ h₂ =>
      ((finish_keeps hh _ _).ends e₂).mono (fun _ _ h₃ => h₂.trans (h₃ h₂.tends))
        fun _ _ h₃ => h₂.trans (h₃ h₂.tends)
    rw [ends_bind, ends_onlyIf]
    split
    · exact hrecord.mono (fun _ e₂ h₂ => hend e₂ (h₁.trans (h₂ h₁.tends)))
        fun _ _ h₂ => h₁.trans (h₂ h₁.tends)
    · exact hend e₁ h₁
  rw [ends_onlyIf]
  split
  · have hset := (setOutcome_ends (e.workflow w).current .abort e).and
      ((bears_keeps.setOutcome .abort).ends e)
    refine hset.mono ?_ ?_
    · rintro _ e₁ ⟨⟨-, t, h₁⟩, hk⟩
      exact (ends_bind _ _).mp (hclose e₁ (hk ht) (workflow_of_core h₁.core w))
    · rintro _ _ ⟨-, hk⟩
      exact hk ht
  · exact (ends_bind _ _).mp (hclose e ht.reaches rfl)

end Driving

/-! ## Managers and queues -/

theorem bindStep_keeps (id : Int) (c : ContextId) : (bindStep s id c : Act (Tended σ) Unit).Always Keeps :=
  always_get.bind fun _ => (always_failIf _ _).bind fun _ =>
    always_modify fun _ => keeps_mapStep_of_same rfl rfl rfl

theorem reassign_keeps : (reassign s actor : Act (Tended σ) Unit).Always Keeps :=
  always_get.bind fun _ => (always_failIf _ _).bind fun _ => (always_failIf _ _).bind fun _ =>
    (always_failIf _ _).bind fun _ => bears_keeps.note.bind fun _ =>
      always_modify fun _ => keeps_mapStep_of_same rfl rfl rfl

theorem assignId_keeps (id : Int) : (assignId w id : Act (Tended σ) Unit).Always Keeps :=
  always_get.bind fun _ => (always_failIf _ _).bind fun _ =>
    Always.bind (always_updateWorkflow fun _ => rfl) fun _ => bindStep_keeps id _

/-- A new workflow refers to nothing but its first step. -/
theorem addWorkflow_keeps (key : String) (owner : Option Actor) (id : Int) (values : Context) :
    (addWorkflow key s owner id values : Act (Tended σ) WorkflowId).Always Keeps := by
  intro e ht
  refine Ends.state (P := Reaches e) ((addWorkflow_ends key s owner id values e).mono ?_ ?_)
  · rintro _ e' ⟨-, -, wf, hwf, he'⟩
    have hpush : e'.workflows = e.workflows.push wf := by rw [he']
    have hhost : e'.host = e.host := by rw [he']; rfl
    have hfol : ∀ u t, Followed e u t → Followed e' u t := by
      intro u t hu
      unfold Followed
      rw [show e'.step u = (e.mapStep s (·.boundTo wf)).step u by rw [he']; rfl]
      exact step_mapStep_keeps (p := fun st => st.isCompleted = true ∧ st.next? st.outcome = some t)
        (fun hs => hs) hu
    refine ⟨⟨fun v hv => (hasWorkflow_of_push hpush v).mpr (.inl hv), fun v hv => ?_, ?_, fun _ => hfol⟩,
      fun hr v => ?_, ?_⟩
    · rw [workflow_of_push_old hpush hv]
    · rw [hhost]
      exact fun hr => hr
    · rw [workflow_of_push hpush]
      split
      · rw [hwf]
        exact rooted_of_new rfl rfl rfl
      · rw [hhost] at hr
        exact (ht.rooted hr v).mono hfol
    · rw [hhost]
      exact ht.sights
  · rintro _ _ ⟨-, rfl⟩
    exact ht.reaches

section Managing

variable (hh : Heeds Keeps h)
include hh

theorem startManaged_keeps : (startManaged h m w context).Always (KeepsFor w) := by
  have haccept : (accept m w : Act (Tended σ) Unit).Always Keeps := by
    refine always_get.bind fun e => ?_
    dsimp only
    split
    · refine Always.bind (always_get.bind fun _ => ?_) fun n => assignId_keeps n
      exact (always_updateManager bears_keeps.apart m _).bind fun _ => always_pure _
    · exact always_failIf _ _
  have hregister : (register m w : Act (Tended σ) Unit).Always Keeps :=
    always_get.bind fun _ => (always_updateManager bears_keeps.apart m _).bind fun _ =>
      Always.bind (always_updateWorkflow fun _ => rfl) fun _ => bears_keeps.note
  exact always_get.bind fun _ => (always_failIf _ _).bind fun _ =>
    Always.bind (haccept.mono fun hk _ => hk) fun _ => Always.bind (hregister.mono fun hk _ => hk) fun _ =>
      advance_keeps hh

theorem decideQueued_keeps : (decideQueued h q s o actor).Always Keeps := by
  have hdequeue : (dequeue h q s).Always Keeps :=
    always_dequeue (fun l event _ => hh.observe l event) bears_keeps.apart q s
  exact (always_requireQueued q s).bind fun _ => always_get.bind fun _ => (always_failIf _ _).bind fun _ =>
    (bears_keeps.resolve o).bind fun _ => always_get.bind fun _ => hdequeue.onlyIf _

theorem reassignQueued_keeps : (reassignQueued h q s actor).Always Keeps :=
  (always_requireQueued q s).bind fun _ => always_get.bind fun _ => reassign_keeps.bind fun _ =>
    always_emitQueue (fun l event _ => hh.observe l event) q s rfl

theorem decide_reaches (ht : Tends e)
    (hw : ∀ w, running? e m ((e.step s).workflowId.getD 0) = some w → e.HasWorkflow w) :
    (decide h m s o actor context).Ends e (fun _ => Reaches e) (fun _ => Reaches e) := by
  unfold Engine.decide
  rw [ends_bind, ends_get]
  dsimp only
  split
  · exact (Always.bind (always_numberOf s) fun _ => always_throw _).ends e |>.mono
      (fun _ _ (hk : Keeps e _) => hk ht) fun _ _ hk => hk ht
  · rename_i w hrun
    have hq : (decideQueued h (e.manager m).queue s o actor).Always (KeepsFor w) :=
      (decideQueued_keeps hh).mono fun hk _ => hk
    exact ((hq.bind fun _ => advance_keeps hh).ends e).mono (fun _ _ hk => hk (hw w hrun) ht)
      fun _ _ hk => hk (hw w hrun) ht

end Managing

/-! ## Approval workflows -/

theorem keeps_asking (plan : ApprovalPlan) (approver : Actor) (n k : Nat) :
    Keeps e (e.asking plan approver n k) := by
  unfold asking
  split
  · exact keeps_added _
  · exact IsTrans.trans _ _ _ (keeps_added _) (keeps_added _)

/-- What a plan adds is not completed. -/
theorem step_asking_of_isCompleted {plan : ApprovalPlan} {approver : Actor} {n k : Nat}
    (hc : ((e.asking plan approver n k).step s).isCompleted = true) :
    (e.asking plan approver n k).step s = e.step s := by
  by_cases hs : e.HasStep s
  · exact step_asking_of_hasStep plan approver n k hs
  by_cases hs' : (e.asking plan approver n k).HasStep s
  · rcases ((hasStep_asking e plan approver n k).mp hs').resolve_left hs with rfl | hn
    · rw [step_asking_question] at hc
      contradiction
    · obtain ⟨key, -, hst⟩ := step_asking_notice approver n k hn
      rw [hst] at hc
      contradiction
  · rw [step_of_not_hasStep hs'] at hc
    contradiction

/-- Whether making the workflow of a plan replaces an edge that has been decided on: the preparation's. -/
def preparesAnew (plan : ApprovalPlan) (e : Engine σ) : Bool :=
  plan.preparation.any fun s => (e.step s).isTask && e.replaces s .complete

theorem setSuccessor_reaches {target : Option StepId} (ht : Tends e)
    (hr : e.host.relinked = false → (e.step s).isTask = true → e.replaces s .complete = false) :
    (setSuccessor s target).Ends e (fun _ => Reaches e) (fun _ => Reaches e) := by
  simp only [setSuccessor, addSuccessor, ends_bind, ends_get, ends_failIf, ends_updateStep]
  cases htask : (e.step s).isTask
  case false => exact ht.reaches
  case true => exact keeps_withSuccessor (fun hrel => hr hrel htask) target ht

theorem connect_reaches {plan : ApprovalPlan} {decision? : Option StepId} (ht : Tends e)
    (hr : e.host.relinked = false → preparesAnew plan e = false) :
    (connect plan decision?).Ends e (fun _ => Reaches e) (fun _ => Reaches e) := by
  unfold connect
  split
  · rename_i prep hprep
    rw [ends_bind]
    refine setSuccessor_reaches ht fun hrel htask => ?_
    have h := hr hrel
    unfold preparesAnew at h
    rw [hprep, Option.any_some, htask, Bool.true_and] at h
    exact h
  · exact ht.reaches
  · exact ht.reaches

/-- A preparation that has been decided on was so before the decision of the plan was added. -/
theorem preparesAnew_asking {plan : ApprovalPlan} {approver : Actor} {n k : Nat}
    (hr : preparesAnew plan e = false) (hsteps : ∀ s, e'.step s = (e.asking plan approver n k).step s) :
    preparesAnew plan e' = false := by
  unfold preparesAnew replaces at hr ⊢
  cases hp : plan.preparation with
  | none => rfl
  | some s =>
    rw [hp, Option.any_some] at hr
    rw [Option.any_some, hsteps]
    cases hc : ((e.asking plan approver n k).step s).isCompleted
    case false => exact Bool.and_false _
    case true =>
      rw [← hc, step_asking_of_isCompleted hc]
      exact hr

theorem addApprovalWorkflow_reaches (plan : ApprovalPlan) (ht : Tends e)
    (hr : e.host.relinked = false → preparesAnew plan e = false) :
    (addApprovalWorkflow m plan).Ends e (fun _ => Reaches e) (fun _ => Reaches e) := by
  -- Once the decision is there, if any, the rest is to connect the steps and to make the workflow.
  have hrest : ∀ (decision? : Option StepId) (extras : Entries String Value) (e₁ : Engine (Tended σ)),
      Reaches e e₁ → (e₁.host.relinked = false → preparesAnew plan e₁ = false) →
        (connect plan decision? >>= fun first =>
          note builderLogger .debug "Built approval workflow" extras >>= fun _ =>
            addWorkflow plan.key first plan.submitter 0 []).Ends e₁ (fun _ => Reaches e)
              (fun _ => Reaches e) := by
    intro decision? extras e₁ h₁ hr₁
    rw [ends_bind]
    refine (connect_reaches h₁.tends hr₁).mono (fun first e₂ h₂ => ?_) fun _ _ h₂ => h₁.trans h₂
    have h₂ := h₁.trans h₂
    exact ((bears_keeps.note.bind fun _ => addWorkflow_keeps plan.key plan.submitter 0 []).ends e₂).mono
      (fun _ _ h₃ => h₂.trans (h₃ h₂.tends)) fun _ _ h₃ => h₂.trans (h₃ h₂.tends)
  unfold addApprovalWorkflow
  rw [ends_bind, ends_get]
  dsimp only
  cases (e.manager m).settings.approver? plan.key with
  | none => exact hrest none _ e ht.reaches hr
  | some approver =>
    dsimp only
    rw [ends_bind]
    show Ends (addApproval plan approver >>= fun d => pure (some d)) e _ _
    rw [ends_bind]
    refine (addApproval_ends plan approver e).mono ?_ fun _ _ => False.elim
    rintro d e₁ ⟨-, n, k, he₁⟩
    have h₁ : Reaches e e₁ := IsTrans.trans _ _ _ (keeps_asking plan approver n k)
      (keeps_of_same (congrArg Core.steps he₁.core) (congrArg Core.workflows he₁.core) he₁.host) ht
    exact hrest (some d) _ e₁ h₁ fun hrel => preparesAnew_asking (hr (h₁.relinked hrel)) (step_of_core he₁.core)

/-! ## Programs -/

def provided (p : Engine σ → Prop) [DecidablePred p] (m : Act σ α) : Act σ α := do
  if p (← get) then m else throw .exhausted

structure Apart (e e' : Engine (Tended σ)) : Prop where
  steps : e'.steps = e.steps
  workflows : e'.workflows = e.workflows
  relinked : e'.host.relinked = e.host.relinked
  sights : e'.host.sights = e.host.sights

/-- Programs, which may call the engine with the hooks `below`. What is asked of a workflow is asked of one
that is there. -/
inductive Program (below : Hooks (Tended σ) γ → Prop) : {α : Type} → Act (Tended σ) α → Prop
  | apart {α : Type} {m : Act (Tended σ) α} (h : m.Always Apart) : Program below m
  | sight : Program below takeSight
  | addTask (kind key : String) (actor : Option Actor) : Program below (addTask kind key actor)
  | addDecision (kind key : String) (actor : Option Actor) (outcomes : List Outcome)
      (reassignable : Bool) : Program below (addDecision kind key actor outcomes reassignable)
  | addNotification (kind key : String) (actor : Option Actor) :
      Program below (addNotification kind key actor)
  | addSuccessor (s : StepId) (o : Outcome) (target : Option StepId) :
      Program below (marking (·.replaces s o) (addSuccessor s o target))
  | setSuccessor (s : StepId) (target : Option StepId) :
      Program below (marking (fun e => (e.step s).isTask && e.replaces s .complete)
        (setSuccessor s target))
  | addFact (s : StepId) (f : Fact) : Program below (addFact s f)
  | addError (s : StepId) (message : String) : Program below (addError s message)
  | bindStep (s : StepId) (id : Int) (c : ContextId) : Program below (bindStep s id c)
  | start (h : Hooks (Tended σ) γ) (s : StepId) (hb : below h) : Program below (start h s)
  | execute (h : Hooks (Tended σ) γ) (s : StepId) (context : γ) (hb : below h) :
      Program below (execute h s context)
  | setOutcome (s : StepId) (o : Outcome) : Program below (setOutcome s o)
  | resolve (s : StepId) (o : Outcome) : Program below (resolve s o)
  | reassign (s : StepId) (actor : Option Actor) : Program below (reassign s actor)
  | enqueue (h : Hooks (Tended σ) γ) (q : QueueId) (s : StepId) (hb : below h) :
      Program below (enqueue h q s)
  | dequeue (h : Hooks (Tended σ) γ) (q : QueueId) (s : StepId) (hb : below h) :
      Program below (dequeue h q s)
  | decideQueued (h : Hooks (Tended σ) γ) (q : QueueId) (s : StepId) (o : Outcome)
      (actor : Option Actor) (hb : below h) : Program below (decideQueued h q s o actor)
  | reassignQueued (h : Hooks (Tended σ) γ) (q : QueueId) (s : StepId) (actor : Option Actor)
      (hb : below h) : Program below (reassignQueued h q s actor)
  | addWorkflow (key : String) (first : StepId) (owner : Option Actor) (id : Int) (values : Context) :
      Program below (addWorkflow key first owner id values)
  | assignId (w : WorkflowId) (id : Int) : Program below (assignId w id)
  | listenTo (w : WorkflowId) (l : Listener) : Program below (listenTo w l)
  | unlisten (w : WorkflowId) (l : Listener) : Program below (unlisten w l)
  | addMessageArgument (w : WorkflowId) (v : Value) : Program below (addMessageArgument w v)
  | advance (h : Hooks (Tended σ) γ) (w : WorkflowId) (context : γ) (hb : below h) :
      Program below (provided (·.HasWorkflow w) (advance h w context))
  | abort (h : Hooks (Tended σ) γ) (w : WorkflowId) (hb : below h) : Program below (abort h w)
  | startManaged (h : Hooks (Tended σ) γ) (m : ManagerId) (w : WorkflowId) (context : γ) (hb : below h) :
      Program below (provided (·.HasWorkflow w) (startManaged h m w context))
  | decide (h : Hooks (Tended σ) γ) (m : ManagerId) (s : StepId) (o : Outcome) (actor : Option Actor)
      (context : γ) (hb : below h) :
      Program below (provided (fun e => ∀ w ∈ running? e m ((e.step s).workflowId.getD 0), e.HasWorkflow w)
        (decide h m s o actor context))
  | addApprovalWorkflow (m : ManagerId) (plan : ApprovalPlan) :
      Program below (marking (preparesAnew plan) (addApprovalWorkflow m plan))
  | bind {α β : Type} {m : Act (Tended σ) α} {f : α → Act (Tended σ) β} (hm : Program below m)
      (hf : ∀ a, Program below (f a)) : Program below (m >>= f)
  | tryCatch {α : Type} {m : Act (Tended σ) α} {handle : Failure → Act (Tended σ) α}
      (hm : Program below m) (hf : ∀ x, Program below (handle x)) : Program below (tryCatch m handle)

/-- Hooks and listeners that may call the engine again, a finite number of levels deep. -/
inductive Reenters : Hooks (Tended σ) γ → Prop
  | intro (h : Hooks (Tended σ) γ) (below : Hooks (Tended σ) γ → Prop)
      (nested : ∀ h', below h' → Reenters h')
      (starting : ∀ s, Program below (h.starting s))
      (execute : ∀ s context, Program below (h.execute s context))
      (present : ∀ s context, Program below (h.present s context))
      (observe : ∀ l event, Program below (h.observe l event)) : Reenters h

theorem Apart.keeps (h : Apart e e') : Keeps e e' := by
  intro ht
  have hfol : ∀ s t, Followed e s t → Followed e' s t := by
    unfold Followed
    intro s t hf
    rwa [step_of_steps h.steps]
  refine ⟨⟨fun w => (hasWorkflow_of_workflows h.workflows w).mpr, fun w _ => ?_, fun hr => ?_,
    fun _ => hfol⟩, fun hr w => ?_, ?_⟩
  · rw [workflow_of_workflows h.workflows]
  · rwa [← h.relinked]
  · rw [h.relinked] at hr
    rw [workflow_of_workflows h.workflows]
    exact (ht.rooted hr w).mono hfol
  · rw [h.sights]
    exact ht.sights

theorem provided_keeps {p : Engine (Tended σ) → Prop} [DecidablePred p] {m : Act (Tended σ) α}
    (hm : ∀ e, p e → Tends e → m.Ends e (fun _ => Reaches e) (fun _ => Reaches e)) :
    (provided p m).Always Keeps := by
  intro e ht
  refine Ends.state (P := Reaches e) ?_
  unfold provided
  rw [ends_bind, ends_get]
  split
  · rename_i hp
    exact hm e hp ht
  · exact ht.reaches

theorem Program.keeps {below : Hooks (Tended σ) γ → Prop} {m : Act (Tended σ) α}
    (hb : ∀ h, below h → Heeds Keeps h) (hm : Program below m) : m.Always Keeps := by
  -- By how the program is composed; an action that runs hooks rests on what those below keep.
  induction hm with
  | apart h => exact h.mono Apart.keeps
  | sight => exact takeSight_keeps
  | addTask kind key actor => exact always_modifyGet fun _ => keeps_added _
  | addDecision kind key actor outcomes reassignable =>
    exact Always.bind (always_modifyGet fun _ => keeps_of_same rfl rfl rfl) fun _ =>
      always_modifyGet fun _ => keeps_added _
  | addNotification kind key actor =>
    exact Always.bind (always_modifyGet fun _ => keeps_of_same rfl rfl rfl) fun _ =>
      always_modifyGet fun _ => keeps_added _
  | addSuccessor s o target =>
    exact marking_keeps (fun _ _ => rfl) fun e ht hr => keeps_withSuccessor hr target ht
  | setSuccessor s target =>
    refine marking_keeps (fun _ _ => rfl) fun e ht hr => setSuccessor_reaches ht fun hrel htask => ?_
    have h := hr hrel
    rwa [htask, Bool.true_and] at h
  | addFact s f =>
    exact always_get.bind fun _ => (always_failIf _ _).bind fun _ =>
      always_modify fun _ => keeps_mapStep_of_same rfl rfl rfl
  | addError s message => exact always_modify fun _ => keeps_mapStep_of_same rfl rfl rfl
  | bindStep s id c => exact bindStep_keeps id c
  | start h s hbelow => exact bears_keeps.start ((hb h hbelow).starting s)
  | execute h s context hbelow =>
    exact bears_keeps.execute ((hb h hbelow).execute s context) ((hb h hbelow).present s context)
  | setOutcome s o => exact bears_keeps.setOutcome o
  | resolve s o => exact bears_keeps.resolve o
  | reassign s actor => exact reassign_keeps
  | enqueue h q s hbelow =>
    exact always_enqueue (fun l event _ => (hb h hbelow).observe l event) bears_keeps.apart q s
  | dequeue h q s hbelow =>
    exact always_dequeue (fun l event _ => (hb h hbelow).observe l event) bears_keeps.apart q s
  | decideQueued h q s o actor hbelow => exact decideQueued_keeps (hb h hbelow)
  | reassignQueued h q s actor hbelow => exact reassignQueued_keeps (hb h hbelow)
  | addWorkflow key first owner id values => exact addWorkflow_keeps key owner id values
  | assignId w id => exact assignId_keeps id
  | listenTo w l => exact always_updateWorkflow fun _ => rfl
  | unlisten w l =>
    exact always_get.bind fun _ => (always_failIf _ _).bind fun _ => always_updateWorkflow fun _ => rfl
  | addMessageArgument w v =>
    unfold Engine.addMessageArgument
    split
    · exact always_updateWorkflow fun _ => rfl
    · exact always_throw _
  | advance h w context hbelow =>
    refine provided_keeps fun e hw ht => ?_
    exact ((advance_keeps (hb h hbelow)).ends e).mono (fun _ _ hk => hk hw ht)
      fun _ _ hk => hk hw ht
  | abort h w hbelow => exact abort_keeps (hb h hbelow)
  | startManaged h m w context hbelow =>
    refine provided_keeps fun e hw ht => ?_
    exact ((startManaged_keeps (hb h hbelow)).ends e).mono (fun _ _ hk => hk hw ht)
      fun _ _ hk => hk hw ht
  | decide h m s o actor context hbelow =>
    exact provided_keeps fun e hw ht => decide_reaches (hb h hbelow) ht hw
  | addApprovalWorkflow m plan =>
    exact marking_keeps (fun _ _ => rfl) fun e ht hr => addApprovalWorkflow_reaches plan ht hr
  | bind _ _ ihm ihf => exact ihm.bind ihf
  | tryCatch _ _ ihm ihf => exact ihm.tryCatch ihf

/-- What programs keep to if the hooks that they call do, hooks keep to at any depth. -/
theorem Reenters.heeds {R : Engine (Tended σ) → Engine (Tended σ) → Prop}
    (hp : ∀ {below : Hooks (Tended σ) γ → Prop} {α : Type} {m : Act (Tended σ) α},
      (∀ h, below h → Heeds R h) → Program below m → m.Always R) (hh : Reenters h) : Heeds R h := by
  induction hh with
  | intro h below nested starting execute present observe ih =>
    exact ⟨fun s => hp ih (starting s), fun s context => hp ih (execute s context),
      fun s context => hp ih (present s context), fun l event => hp ih (observe l event)⟩

/-- No workflow has begun yet, and nothing has been seen. -/
structure Unbegun (e : Engine (Tended σ)) : Prop where
  current : ∀ w, (e.workflow w).current = (e.workflow w).first
  previous : ∀ w, (e.workflow w).previous = none
  history : ∀ w, (e.workflow w).history = []
  unseen : e.host.sights = []

theorem Unbegun.tends (ho : Unbegun e) : Tends e := by
  refine ⟨fun _ w => rooted_of_new (ho.current w) (ho.previous w) (ho.history w), fun e' he' => ?_⟩
  rw [ho.unseen] at he'
  exact absurd he' List.not_mem_nil

/-- Whatever is done, as long as no edge is replaced that has been decided on, what a workflow refers to can
be reached from its first step and a record can be taken of it: in the end, and whenever the engine has been
looked at on the way. -/
theorem recordable_throughout {m : Act (Tended σ) α}
    (hm : Program (Reenters : Hooks (Tended σ) γ → Prop) m) (ho : Unbegun e) :
    ((m.run e).2.host.relinked = false → ∀ w, (m.run e).2.Recordable w) ∧
      ∀ e' ∈ (m.run e).2.host.sights, e'.host = false → ∀ w, e'.Recordable w := by
  have ht : Tends (m.run e).2 := (hm.keeps (fun _ hh => hh.heeds Program.keeps) e ho.tends).tends
  exact ⟨fun hr w => (ht.rooted hr w).recordable, fun e' he' hr w => (ht.sights e' he' hr w).recordable⟩

/-! ## An article that is rerouted -/

def plainHooks : Hooks (Tended Unit) Unit where
  starting _ := pure ()
  execute _ _ := do
    takeSight
    return .complete
  present _ _ := takeSight
  observe _ _ := takeSight
  room := 0

/-- Hooks by which the first step leads somewhere else before it completes itself, advances the workflow and
fails. -/
def reroutingHooks : Hooks (Tended Unit) Unit :=
  { plainHooks with
    execute := fun s _ => do
      marking (fun e => (e.step s).isTask && e.replaces s .complete) (setSuccessor s (some ⟨2⟩))
      setOutcome s .complete
      let _ ← provided (·.HasWorkflow ⟨0⟩) (advance plainHooks ⟨0⟩ ())
      takeSight
      throw (.raised .business "late") }

/-- An article is to be written and printed, but is published instead. That it might have been denied is
registered when it is too late. -/
def rerouting : Act (Tended Unit) Unit := do
  let s ← addTask "Task" "write" none
  let t ← addTask "Task" "print" none
  let _ ← addTask "Task" "publish" none
  marking (fun e => (e.step s).isTask && e.replaces s .complete) (setSuccessor s (some t))
  let w ← addWorkflow "article" s none 1 []
  tryCatch (do let _ ← provided (·.HasWorkflow w) (advance reroutingHooks w ())) fun _ => pure ()
  marking (·.replaces s .deny) (addSuccessor s .deny (some t))
  takeSight

def blank : Engine (Tended Unit) where
  clock := .counter 1 1
  host := { inner := () }

theorem reenters_plainHooks : Reenters plainHooks :=
  .intro _ (fun _ => False) (fun _ => False.elim) (fun _ => .apart (always_modify fun _ => ⟨rfl, rfl, rfl, rfl⟩))
    (fun _ _ => .bind .sight fun _ => .apart (always_modify fun _ => ⟨rfl, rfl, rfl, rfl⟩))
    (fun _ _ => .sight) fun _ _ => .sight

theorem reenters_reroutingHooks : Reenters reroutingHooks := by
  refine .intro _ (· = plainHooks) (fun _ hb => hb ▸ reenters_plainHooks)
    (fun _ => .apart (always_modify fun _ => ⟨rfl, rfl, rfl, rfl⟩)) (fun s _ => ?_) (fun _ _ => .sight)
    fun _ _ => .sight
  exact .bind (.setSuccessor s _) fun _ => .bind (.setOutcome s _) fun _ =>
    .bind (.advance plainHooks _ _ rfl) fun _ => .bind .sight fun _ =>
      .apart fun _ => ⟨rfl, rfl, rfl, rfl⟩

theorem program_rerouting : Program (Reenters : Hooks (Tended Unit) Unit → Prop) rerouting := by
  refine .bind (.addTask ..) fun s => .bind (.addTask ..) fun t => .bind (.addTask ..) fun _ =>
    .bind (.setSuccessor s _) fun _ => .bind (.addWorkflow ..) fun w => .bind (.tryCatch ?_ fun _ => ?_)
      fun _ => .bind (.addSuccessor s _ _) fun _ => .sight
  · exact .bind (.advance reroutingHooks w () reenters_reroutingHooks) fun _ =>
      .apart fun _ => ⟨rfl, rfl, rfl, rfl⟩
  · exact .apart fun _ => ⟨rfl, rfl, rfl, rfl⟩

theorem unbegun_blank : Unbegun blank := by
  have hw : ∀ w, blank.workflow w = default := fun w => workflow_of_not_hasWorkflow (Nat.not_lt_zero _)
  exact ⟨fun w => hw w ▸ rfl, fun w => hw w ▸ rfl, fun w => hw w ▸ rfl, rfl⟩

/-- The article goes where it was rerouted to, and at each of three looks a record can be taken. -/
theorem rerouting_recorded :
    (rerouting.run blank).2.host.relinked = false ∧
      ((rerouting.run blank).2.workflow ⟨0⟩).history = [⟨0⟩, ⟨2⟩] ∧
      (rerouting.run blank).2.host.sights.map (·.host) = [false, false, false] ∧
      (∀ w, (rerouting.run blank).2.Recordable w) ∧
      ∀ e' ∈ (rerouting.run blank).2.host.sights, e'.host = false → ∀ w, e'.Recordable w := by
  have hr : (rerouting.run blank).2.host.relinked = false := by decide +kernel
  obtain ⟨hend, hsights⟩ := recordable_throughout program_rerouting unbegun_blank
  exact ⟨hr, by decide +kernel, by decide +kernel, hend hr, hsights⟩

end ApprovalFlow.Tended
