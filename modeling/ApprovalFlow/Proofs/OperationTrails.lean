import ApprovalFlow.Engine.Approval
import ApprovalFlow.Proofs.StepTrails

/-!
# Operations leave trails

Every operation of steps, decisions, queues, workflows and managers leaves a trail, and so does whatever
callers, hooks and listeners put together from them, however deeply they call each other
(`Undertaking.leaves_trail`). When a workflow gives the step that it is on an outcome, the step has begun or
the workflow is being aborted; the workflow goes on from completed steps alone.
-/

namespace ApprovalFlow

open Act

variable {σ γ α β : Type}

structure Hooks.Obeys (h : Hooks σ γ) (R : Engine σ → Engine σ → Prop) : Prop where
  starting : ∀ s, (h.starting s).Always R
  execute : ∀ s context, (h.execute s context).Always R
  present : ∀ s context, (h.present s context).Always R
  observe : ∀ l event, (h.observe l event).Always R

namespace Engine

open Logging (Level)

variable {seen : σ → List Core} {may : StepId → Outcome → Prop} {h : Hooks σ γ} {w : WorkflowId}
  {s t : StepId} {m : ManagerId} {q : QueueId} {o : Outcome} {actor : Option Actor} {context : γ}
  {e e' e'' : Engine σ}

/-! ## Steps -/

theorem treads_off (hs : e'.steps = e.steps) (hw : e'.workflows = e.workflows) (_ : e'.contexts = e.contexts)
    (hh : e'.host = e.host) (hk : e'.clock = e.clock) : Treads seen may e e' :=
  (aside_of_same hs hw (by rw [hk]) (by rw [hh])).treads

theorem note_treads {logger : String} {level : Level} {text : String} {extras : Entries String Value} :
    (note logger level text extras : Act σ Unit).Always (Treads seen may) := always_note treads_off

theorem readClock_treads : (readClock : Act σ Instant).Always (Treads seen may) :=
  always_modifyGet fun e => (aside_of_same rfl rfl rfl rfl : Aside seen e { e with clock := e.clock.tick }).treads

theorem updateStep_treads {f : Step → Step} (hf : ∀ st, (f st).life = st.life) :
    (updateStep s f : Act σ Unit).Always (Treads seen may) :=
  always_modify fun _ => (aside_mapStep (alike_refl _) (fun _ => hf _) rfl).treads

theorem updateWorkflow_treads {f : Workflow → Workflow} (hh : ∀ wf : Workflow, (f wf).history = wf.history)
    (hp : ∀ wf : Workflow, (f wf).previous = wf.previous) :
    (updateWorkflow w f : Act σ Unit).Always (Treads seen may) :=
  always_modify fun _ => (aside_mapWorkflow (hh _) (hp _)).treads

/-- A change of a step that is there is a deed; of one that is not, nothing. -/
theorem treads_of_alike {f : Step → Step} (ha : e'.Alike (e.mapStep s f))
    (hr : e'.clock.reading = e.clock.reading) (hd : e.HasStep s → Treads seen may e e') :
    Treads seen may e e' := by
  by_cases hs : e.HasStep s
  · exact hd hs
  · exact (aside_mapStep ha (fun h => absurd h hs) hr).treads

/-- A step that starts has begun. -/
theorem startStep_treads (s : StepId) (e : Engine σ) :
    (startStep s).Ends e (fun _ e' => Treads seen may e e' ∧ (e'.HasStep s → (e'.step s).Begun))
      (fun _ => Treads seen may e) := by
  refine ((startStep_starts s e).and (ends_run _ e)).mono ?_ ?_
  · rintro _ e' ⟨⟨-, -, ha, hr⟩, hrun⟩
    refine ⟨treads_of_alike ha hr.reading fun hs => (Did.start hs hrun).treads nofun, fun hs => .inr ?_⟩
    rw [step_of_alike ha ((hasStep_mapStep e s s _).mp ((hasStep_of_core ha.core s).mp hs))]
    exact nofun
  · rintro _ _ ⟨rfl, -⟩
    exact refl _

theorem setOutcome_treads (hm : may s o) : (setOutcome s o : Act σ Unit).Always (Treads seen may) := by
  refine always_of_ends fun e => ((setOutcome_gives s o e).and (ends_run _ e)).mono ?_ ?_
  · rintro _ e' ⟨⟨-, ha, hr⟩, hrun⟩
    refine treads_of_alike ha hr.reading fun hs => (Did.answer hs hrun).treads ?_
    rintro _ _ ⟨⟩
    exact hm
  · rintro _ _ ⟨⟨rfl, -⟩, -⟩
    exact refl _

/-- An outcome that a workflow gives. -/
theorem give_treads (hb : e.HasStep s → (e.step s).Begun ∨ o.same .abort = true) :
    (setOutcome s o).Ends e (fun _ => Treads seen may e) (fun _ => Treads seen may e) := by
  refine ((setOutcome_gives s o e).and (ends_run _ e)).mono ?_ ?_
  · rintro _ e' ⟨⟨-, ha, hr⟩, hrun⟩
    exact treads_of_alike ha hr.reading fun hs => (Did.give hs (hb hs) hrun).treads nofun
  · rintro _ _ ⟨⟨rfl, -⟩, -⟩
    exact refl _

/-- A step that was made on the way gets any outcome. It may not have begun. -/
theorem made_treads (h₁ : Treads seen may e e') (hs : ¬e.HasStep s) :
    (setOutcome s o).Ends e' (fun _ => Treads seen may e) (fun _ => Treads seen may e) := by
  refine ((setOutcome_gives s o e').and (ends_run _ e')).mono ?_ ?_
  · rintro _ e₂ ⟨⟨-, ha, hr⟩, hrun⟩
    by_cases hs' : e'.HasStep s
    · obtain ⟨trail, ht, hans⟩ := h₁
      refine ⟨_, ht.snoc (.answer hs' hrun), hans.concat ?_⟩
      rintro _ _ ⟨⟩
      exact .inr (ht.made hs hs')
    · exact IsTrans.trans _ _ _ h₁ (aside_mapStep ha (fun h => absurd h hs') hr.reading).treads
  · rintro _ _ ⟨⟨rfl, -⟩, -⟩
    exact h₁

theorem reassign_treads : (Engine.reassign s actor : Act σ Unit).Always (Treads seen may) := by
  refine always_of_ends fun e => ((reassign_gives s actor e).and (ends_run _ e)).mono ?_ ?_
  · rintro _ e' ⟨⟨-, ha, hr⟩, hrun⟩
    exact treads_of_alike ha hr.reading fun hs => (Did.reassign hs hrun).treads nofun
  · rintro _ _ ⟨⟨rfl⟩, -⟩
    exact refl _

theorem addError_treads (text : String) : (addError s text : Act σ Unit).Always (Treads seen may) :=
  fun _ => treads_of_alike (alike_refl _) rfl fun hs => (Did.remark hs rfl).treads nofun

theorem addSuccessor_treads (o : Outcome) (target : Option StepId) :
    (addSuccessor s o target : Act σ Unit).Always (Treads seen may) :=
  fun _ => treads_of_alike (alike_refl _) rfl fun hs => (Did.link hs rfl).treads nofun

theorem addStep_treads {st : Step} (hn : st.New) : (addStep st : Act σ StepId).Always (Treads seen may) :=
  fun _ => (Did.make hn rfl).treads nofun

theorem resolve_treads (hm : may s o) : (resolve s o : Act σ Unit).Always (Treads seen may) :=
  always_get.bind fun _ => (always_failIf _ _).bind fun _ => (always_failIf _ _).bind fun _ =>
    (setOutcome_treads hm).bind fun _ => note_treads

/-! ## Running a step -/

/-- What is noted of a failure is a remark at most. -/
theorem guarding_treads {action : Act σ α} {Q : α → Engine σ → Prop}
    (ha : action.Ends e Q (fun _ => Treads seen may e)) :
    (guarding w s action).Ends e Q (fun _ => Treads seen may e) := by
  unfold guarding
  rw [ends_tryCatch]
  refine ha.mono (fun _ _ hq => hq) fun x e₁ h₁ => ?_
  cases x.businessText? with
  | none => exact h₁
  | some text =>
    dsimp only
    rw [addError, ends_bind, ends_updateStep, ends_bind, ends_get, ends_bind, ends_note, ends_throw]
    exact IsTrans.trans _ _ _ h₁ (IsTrans.trans _ _ _ (addError_treads text e₁) (note_treads _))

theorem always_guarding_treads {action : Act σ α} (ha : action.Always (Treads seen may)) :
    (guarding w s action).Always (Treads seen may) :=
  always_of_ends fun e => guarding_treads (ha.ends e)

section Running

variable (hh : h.Obeys (Treads seen may))
include hh

theorem start_treads (s : StepId) (e : Engine σ) :
    (Engine.start h s).Ends e (fun _ e' => Treads seen may e e' ∧ (e'.HasStep s → (e'.step s).Begun))
      (fun _ => Treads seen may e) := by
  unfold Engine.start
  rw [ends_bind]
  refine ((hh.starting s).ends e).mono (fun _ e₁ h₁ => ?_) fun _ _ h₁ => h₁
  rw [ends_bind, ends_get, ends_bind, ends_failIf]
  split
  · exact h₁
  · exact (startStep_treads s e₁).mono (fun _ _ h₂ => ⟨IsTrans.trans _ _ _ h₁ h₂.1, h₂.2⟩)
      fun _ _ h₂ => IsTrans.trans _ _ _ h₁ h₂

theorem presentDecision_treads : (presentDecision h s context).Always (Treads seen may) :=
  (hh.present s context).bind fun _ => Always.bind (updateStep_treads fun _ => rfl) fun _ =>
    always_get.bind fun _ => note_treads

theorem execute_treads : (execute h s context).Always (Treads seen may) := by
  refine always_get.bind fun e => ?_
  split
  · exact (presentDecision_treads hh).bind fun _ => always_pure _
  · exact hh.execute s context

/-- What executing a step that has begun results in is given to it as a workflow gives outcomes. -/
theorem executeStep_treads (hb : e.HasStep s → (e.step s).Begun) :
    (executeStep h w s context).Ends e (fun _ => Treads seen may e) (fun _ => Treads seen may e) := by
  unfold executeStep
  rw [ends_bind]
  refine (((always_guarding_treads (execute_treads hh)).ends e)).mono (fun o e₁ h₁ => ?_) fun _ _ h₁ => h₁
  rw [ends_bind, ends_get, ends_onlyIf]
  split
  · by_cases hs : e.HasStep s
    · exact (give_treads fun _ => .inl (h₁.begun (hb hs))).after h₁
    · exact made_treads h₁ hs
  · exact h₁

/-- A step that is run has begun when it is executed. -/
theorem runStep_treads : (runStep h w s context).Always (Treads seen may) := by
  refine always_of_ends fun e => ?_
  unfold runStep
  rw [ends_bind, ends_get, ends_bind]
  have hstart : (onlyIf (!(e.step s).isStarted) (guarding w s (Engine.start h s))).Ends e
      (fun _ e' => Treads seen may e e' ∧ (e'.HasStep s → (e'.step s).Begun)) (fun _ => Treads seen may e) := by
    rw [ends_onlyIf]
    split
    · exact guarding_treads (start_treads hh s e)
    · rename_i hs
      exact ⟨refl e, fun _ => .inl (by simpa using hs)⟩
  refine hstart.mono (fun _ e₁ h₁ => ?_) fun _ _ h₁ => h₁
  rw [ends_onlyIf]
  split
  · exact (executeStep_treads hh h₁.2).after h₁.1
  · exact h₁.1

end Running

/-! ## Driving -/

theorem moveWorkflow_treads (next : WorkflowState) :
    (moveWorkflow w next : Act σ Unit).Always (Treads seen may) :=
  always_get.bind fun _ => (always_failIf _ _).bind fun _ =>
    Always.bind (updateWorkflow_treads (fun _ => rfl) fun _ => rfl) fun _ => note_treads

/-- Leaving a completed step. -/
theorem record_treads (hc : e.HasStep s → (e.step s).isCompleted = true) :
    (record w s).Ends e (fun _ => Treads seen may e) (fun _ => Treads seen may e) :=
  (ends_updateWorkflow ..).mpr ((Did.leave hc rfl).treads nofun)

/-- Going on from a completed step. -/
theorem follow_treads (hc : (e.step s).isCompleted = true) (ho : (e.step s).outcome.same .abort = false) :
    (follow w s t o).Ends e (fun _ => Treads seen may e) (fun _ => Treads seen may e) := by
  refine ((follow_moves w s t o e).and (ends_run _ e)).mono ?_ ?_
  · rintro _ e' ⟨-, hrun⟩
    exact (Did.go hc ho hrun).treads nofun
  · rintro _ _ ⟨rfl, -⟩
    exact refl _

section Driving

variable (hh : h.Obeys (Treads seen may))
include hh

theorem emit_treads (kind : EventKind) : (emit h w kind).Always (Treads seen may) :=
  always_emit treads_off hh.observe w kind

theorem finish_treads (next : WorkflowState) (kind : EventKind) :
    (finish h w next kind).Always (Treads seen may) :=
  (moveWorkflow_treads next).bind fun _ => readClock_treads.bind fun _ =>
    Always.bind (updateWorkflow_treads (fun _ => rfl) fun _ => rfl) fun _ => emit_treads hh kind

theorem pause_treads : (pause h w s).Always (Treads seen may) := by
  refine always_get.bind fun e => ?_
  dsimp only
  split
  · exact (moveWorkflow_treads _).bind fun _ => (emit_treads hh _).bind fun _ => always_pure _
  · exact always_pure _

theorem leave_treads (hc : (e.step s).isCompleted = true) :
    (leave h w s).Ends e (fun _ => Treads seen may e) (fun _ => Treads seen may e) := by
  unfold leave
  rw [ends_bind]
  obtain ⟨e₁, he₁⟩ : ∃ e₁, e₁ = e.mapWorkflow w (·.left s) := ⟨_, rfl⟩
  have h₁ : Treads seen may e e₁ := he₁ ▸ (Did.leave (fun _ => hc) rfl).treads nofun
  have hc₁ : (e₁.step s).isCompleted = true := by rwa [he₁]
  have hends : ∀ next kind, (finish h w next kind).Ends e₁ (fun _ => Treads seen may e)
      (fun _ => Treads seen may e) := fun next kind =>
    ((finish_treads hh next kind).ends e₁).after h₁
  show Ends _ (e.mapWorkflow w (·.left s)) _ _
  rw [← he₁, ends_bind, ends_get]
  dsimp only
  split
  · exact (ends_bind _ _).mpr (hends .aborted _)
  · rename_i ho
    split
    · exact (ends_bind _ _).mpr (hends .completed _)
    · rw [ends_bind]
      exact (follow_treads hc₁ (Bool.eq_false_iff.mpr ho)).after h₁

theorem turn_treads : (turn h w context).Always (Treads seen may) := by
  refine always_get.bind fun e => always_get.bind fun e' => Always.bind ((runStep_treads hh).onlyIf _) fun _ =>
    always_of_ends fun e₁ => ?_
  rw [ends_bind, ends_get]
  split
  · rename_i hc
    exact leave_treads hh hc
  · exact (pause_treads hh).ends e₁

theorem traverse_treads (turns : Nat) : (traverse h w context turns).Always (Treads seen may) := by
  induction turns with
  | zero => exact always_throw _
  | succ turns ih =>
    refine (turn_treads hh).bind fun progress => ?_
    cases progress with
    | stop state => exact always_pure state
    | goOn => exact ih

theorem enter_treads : (enter h w).Always (Treads seen may) := by
  refine always_get.bind fun e => (always_failIf _ _).bind fun _ => ?_
  split
  · split
    · exact (moveWorkflow_treads _).bind fun _ => (emit_treads hh _).bind fun _ => always_pure _
    · exact always_pure _
  · exact (moveWorkflow_treads _).bind fun _ => readClock_treads.bind fun _ =>
      Always.bind (updateWorkflow_treads (fun _ => rfl) fun _ => rfl) fun _ =>
        (emit_treads hh _).bind fun _ => always_pure _
  · exact always_pure _

/-- Advancing a workflow leaves a trail. -/
theorem advance_treads : (advance h w context).Always (Treads seen may) := by
  rw [advance_eq_enter]
  refine (enter_treads hh).bind fun go => ?_
  split
  · exact always_get.bind fun _ => traverse_treads hh _
  · exact always_pure _

/-- Aborting a workflow leaves a trail. -/
theorem abort_treads : (abort h w).Always (Treads seen may) := by
  refine always_of_ends fun e => ?_
  unfold abort
  rw [ends_bind, ends_get, ends_bind, ends_failIf]
  split
  · exact refl e
  rw [ends_bind]
  obtain ⟨s, hs⟩ : ∃ s, (e.workflow w).current = s := ⟨_, rfl⟩
  simp only [hs]
  -- The step that the workflow is on is complete when the workflow leaves it.
  have hcompletes : (onlyIf (!(e.step s).isCompleted) (setOutcome s .abort)).Ends e
      (fun _ e' => Treads seen may e e' ∧ (e'.HasStep s → (e'.step s).isCompleted = true))
      (fun _ => Treads seen may e) := by
    rw [ends_onlyIf]
    split
    · refine ((give_treads fun _ => .inr rfl).and (setOutcome_gives s .abort e)).mono ?_ fun _ _ h₁ => h₁.1
      rintro _ e' ⟨h₁, -, ha, -⟩
      refine ⟨h₁, fun hs => ?_⟩
      rw [step_of_alike ha ((hasStep_mapStep e s s _).mp ((hasStep_of_core ha.core s).mp hs))]
      rfl
    · rename_i hc
      exact ⟨refl e, fun _ => by simpa using hc⟩
  refine hcompletes.mono (fun _ e₁ h₁ => ?_) fun _ _ h₁ => h₁
  have hrecord : (onlyIf ((e.workflow w).history.getLast? != some s) (record w s)).Ends e₁
      (fun _ => Treads seen may e) (fun _ => Treads seen may e) := by
    rw [ends_onlyIf]
    split
    · exact (record_treads h₁.2).after h₁.1
    · exact h₁.1
  rw [ends_bind]
  exact hrecord.mono (fun _ e₂ h₂ => ((finish_treads hh .aborted _).ends e₂).after h₂) fun _ _ h₂ => h₂

/-! ## Queues -/

theorem enqueue_treads : (enqueue h q s).Always (Treads seen may) :=
  always_enqueue (fun l event _ => hh.observe l event) treads_off q s

theorem dequeue_treads : (dequeue h q s).Always (Treads seen may) :=
  always_dequeue (fun l event _ => hh.observe l event) treads_off q s

theorem decideQueued_treads (hm : may s o) : (decideQueued h q s o actor).Always (Treads seen may) :=
  (always_requireQueued q s).bind fun _ => always_get.bind fun _ => (always_failIf _ _).bind fun _ =>
    (resolve_treads hm).bind fun _ => always_get.bind fun _ => (dequeue_treads hh).onlyIf _

theorem reassignQueued_treads : (reassignQueued h q s actor).Always (Treads seen may) :=
  (always_requireQueued q s).bind fun _ => always_get.bind fun _ => reassign_treads.bind fun _ =>
    always_emitQueue (fun l event _ => hh.observe l event) q s rfl

end Driving

/-! ## What is done aside -/

instance : IsPreorder (Engine σ) (Aside seen) where
  refl _ := ⟨rfl, fun _ => rfl, fun _ => rfl, fun _ => rfl, rfl, rfl⟩
  trans _ _ _ h h' :=
    { size := h'.size.trans h.size
      life := fun s => (h'.life s).trans (h.life s)
      history := fun w => (h'.history w).trans (h.history w)
      previous := fun w => (h'.previous w).trans (h.previous w)
      reading := h'.reading.trans h.reading
      seen := h'.seen.trans h.seen }

theorem note_aside {logger : String} {level : Level} {text : String} {extras : Entries String Value} :
    (note logger level text extras : Act σ Unit).Always (Aside seen) :=
  always_modify fun _ => aside_of_same rfl rfl rfl rfl

theorem updateStep_aside {f : Step → Step} (hf : ∀ st, (f st).life = st.life) :
    (updateStep s f : Act σ Unit).Always (Aside seen) :=
  always_modify fun _ => aside_mapStep (alike_refl _) (fun _ => hf _) rfl

theorem updateWorkflow_aside {f : Workflow → Workflow} (hh : ∀ wf : Workflow, (f wf).history = wf.history)
    (hp : ∀ wf : Workflow, (f wf).previous = wf.previous) :
    (updateWorkflow w f : Act σ Unit).Always (Aside seen) :=
  always_modify fun _ => aside_mapWorkflow (hh _) (hp _)

theorem addFact_aside (f : Fact) : (addFact s f : Act σ Unit).Always (Aside seen) :=
  always_get.bind fun _ => (always_failIf _ _).bind fun _ => updateStep_aside fun _ => rfl

theorem bindStep_aside (id : Int) (c : ContextId) : (bindStep s id c : Act σ Unit).Always (Aside seen) :=
  always_get.bind fun _ => (always_failIf _ _).bind fun _ => updateStep_aside fun _ => rfl

theorem assignId_aside (id : Int) : (assignId w id : Act σ Unit).Always (Aside seen) :=
  always_get.bind fun _ => (always_failIf _ _).bind fun _ =>
    Always.bind (updateWorkflow_aside (fun _ => rfl) fun _ => rfl) fun _ => bindStep_aside id _

/-- A new workflow has not gone on from any step. -/
theorem addWorkflow_aside (key : String) (owner : Option Actor) (id : Int) (values : Context) :
    (addWorkflow key s owner id values : Act σ WorkflowId).Always (Aside seen) := by
  refine always_get.bind fun _ => (bindStep_aside id _).bind fun _ => always_modifyGet fun e => ?_
  have hnew : ¬e.HasWorkflow ⟨e.workflows.size⟩ := Nat.lt_irrefl _
  refine ⟨rfl, fun _ => rfl, fun v => ?_, fun v => ?_, rfl, rfl⟩ <;> rw [workflow_of_push rfl] <;> split
  case refine_1.isTrue hv | refine_2.isTrue hv =>
    rw [hv, workflow_of_not_hasWorkflow hnew]
    rfl
  all_goals rfl

theorem listenTo_aside (l : Listener) : (listenTo w l : Act σ Unit).Always (Aside seen) :=
  updateWorkflow_aside (fun _ => rfl) fun _ => rfl

theorem unlisten_aside (l : Listener) : (unlisten w l : Act σ Unit).Always (Aside seen) :=
  always_get.bind fun _ => (always_failIf _ _).bind fun _ => updateWorkflow_aside (fun _ => rfl) fun _ => rfl

theorem addMessageArgument_aside (v : Value) : (addMessageArgument w v : Act σ Unit).Always (Aside seen) := by
  unfold addMessageArgument
  split
  · exact updateWorkflow_aside (fun _ => rfl) fun _ => rfl
  · exact always_throw _

theorem setAttribute_aside (name : String) (v : Value) :
    (setAttribute w name v : Act σ Unit).Always (Aside seen) :=
  always_get.bind fun _ => always_modify fun _ => aside_of_same rfl rfl rfl rfl

theorem updateManager_aside (f : Manager → Manager) : (updateManager m f : Act σ Unit).Always (Aside seen) :=
  always_modify fun _ => aside_of_same rfl rfl rfl rfl

/-- To accept and to register a workflow binds its first step at most. -/
theorem enrol_aside : (accept m w >>= fun _ => register m w : Act σ Unit).Always (Aside seen) := by
  have haccept : (accept m w : Act σ Unit).Always (Aside seen) := by
    refine always_get.bind fun e => ?_
    dsimp only
    split
    · refine Always.bind (always_get.bind fun _ => ?_) fun n => assignId_aside n
      exact (updateManager_aside _).bind fun _ => always_pure _
    · exact always_failIf _ _
  exact haccept.bind fun _ => always_get.bind fun _ => (updateManager_aside _).bind fun _ =>
    (listenTo_aside _).bind fun _ => note_aside

/-! ## Undertakings -/

/-- What may be undertaken with an engine, by calling it with the hooks `below` and answering steps as they
`may` be: all that leaves the lives of steps alone, and what changes them. What else there is to call is put
together from this. -/
inductive Undertaking (seen : σ → List Core) (may : StepId → Outcome → Prop) (below : Hooks σ γ → Prop) :
    {α : Type} → Act σ α → Prop
  | aside {α : Type} {m : Act σ α} (h : m.Always (Aside seen)) : Undertaking seen may below m
  | look {α : Type} {m : Act σ α} (h : m.Always (Looked seen)) : Undertaking seen may below m
  | addStep (st : Step) (hn : st.New) : Undertaking seen may below (addStep st)
  | addSuccessor (s : StepId) (o : Outcome) (target : Option StepId) :
      Undertaking seen may below (addSuccessor s o target)
  | addError (s : StepId) (message : String) : Undertaking seen may below (addError s message)
  | start (h : Hooks σ γ) (s : StepId) (hb : below h) : Undertaking seen may below (start h s)
  | execute (h : Hooks σ γ) (s : StepId) (context : γ) (hb : below h) :
      Undertaking seen may below (execute h s context)
  | setOutcome (s : StepId) (o : Outcome) (hm : may s o) : Undertaking seen may below (setOutcome s o)
  | resolve (s : StepId) (o : Outcome) (hm : may s o) : Undertaking seen may below (resolve s o)
  | reassign (s : StepId) (actor : Option Actor) : Undertaking seen may below (reassign s actor)
  | enqueue (h : Hooks σ γ) (q : QueueId) (s : StepId) (hb : below h) :
      Undertaking seen may below (enqueue h q s)
  | dequeue (h : Hooks σ γ) (q : QueueId) (s : StepId) (hb : below h) :
      Undertaking seen may below (dequeue h q s)
  | decideQueued (h : Hooks σ γ) (q : QueueId) (s : StepId) (o : Outcome) (actor : Option Actor)
      (hb : below h) (hm : may s o) : Undertaking seen may below (decideQueued h q s o actor)
  | reassignQueued (h : Hooks σ γ) (q : QueueId) (s : StepId) (actor : Option Actor) (hb : below h) :
      Undertaking seen may below (reassignQueued h q s actor)
  | advance (h : Hooks σ γ) (w : WorkflowId) (context : γ) (hb : below h) :
      Undertaking seen may below (advance h w context)
  | abort (h : Hooks σ γ) (w : WorkflowId) (hb : below h) : Undertaking seen may below (abort h w)
  | bind {α β : Type} {m : Act σ α} {f : α → Act σ β} (hm : Undertaking seen may below m)
      (hf : ∀ a, Undertaking seen may below (f a)) : Undertaking seen may below (m >>= f)
  | tryCatch {α : Type} {m : Act σ α} {handle : Failure → Act σ α} (hm : Undertaking seen may below m)
      (hf : ∀ x, Undertaking seen may below (handle x)) : Undertaking seen may below (tryCatch m handle)

/-- Hooks and listeners that undertake something themselves, a finite number of levels deep. -/
inductive Enterprising (seen : σ → List Core) (may : StepId → Outcome → Prop) : Hooks σ γ → Prop
  | intro (h : Hooks σ γ) (below : Hooks σ γ → Prop) (nested : ∀ h', below h' → Enterprising seen may h')
      (starting : ∀ s, Undertaking seen may below (h.starting s))
      (execute : ∀ s context, Undertaking seen may below (h.execute s context))
      (present : ∀ s context, Undertaking seen may below (h.present s context))
      (observe : ∀ l event, Undertaking seen may below (h.observe l event)) : Enterprising seen may h

namespace Undertaking

variable {below : Hooks σ γ → Prop}

theorem get : Undertaking seen may below (get : Act σ (Engine σ)) := .aside always_get

theorem pure (a : α) : Undertaking seen may below (pure a : Act σ α) := .aside (always_pure a)

theorem throw (x : Failure) : Undertaking seen may below (throw x : Act σ α) := .aside (always_throw x)

theorem failIf (c : Bool) (x : Failure) : Undertaking seen may below (failIf c x : Act σ Unit) :=
  .aside (always_failIf c x)

theorem forM {ι : Type} {f : ι → Act σ Unit} (hf : ∀ x, Undertaking seen may below (f x)) (xs : List ι) :
    Undertaking seen may below (xs.forM f) := by
  induction xs with
  | nil => exact pure ()
  | cons x xs ih => exact (hf x).bind fun _ => ih

theorem note {logger : String} {level : Level} {text : String} {extras : Entries String Value} :
    Undertaking seen may below (note logger level text extras : Act σ Unit) := .aside note_aside

theorem takeNumber : Undertaking seen may below (Engine.takeNumber : Act σ Nat) :=
  .aside (always_modifyGet fun _ => aside_of_same rfl rfl rfl rfl)

theorem addTask (kind key : String) (actor : Option Actor) :
    Undertaking seen may below (Engine.addTask kind key actor) := .addStep _ (Step.new_task ..)

theorem addDecision (kind key : String) (actor : Option Actor) (outcomes : List Outcome) (reassignable : Bool) :
    Undertaking seen may below (Engine.addDecision kind key actor outcomes reassignable) :=
  takeNumber.bind fun _ => .addStep _ (Step.new_ofDecision ..)

theorem addNotification (kind key : String) (actor : Option Actor) :
    Undertaking seen may below (Engine.addNotification kind key actor) :=
  takeNumber.bind fun _ => .addStep _ (Step.new_notification ..)

theorem addWorkflow (key : String) (s : StepId) (owner : Option Actor) (id : Int) (values : Context) :
    Undertaking seen may below (Engine.addWorkflow key s owner id values) :=
  .aside (addWorkflow_aside key owner id values)

theorem bindStep (s : StepId) (id : Int) (c : ContextId) :
    Undertaking seen may below (Engine.bindStep s id c : Act σ Unit) := .aside (bindStep_aside id c)

theorem assignId (w : WorkflowId) (id : Int) :
    Undertaking seen may below (Engine.assignId w id : Act σ Unit) := .aside (assignId_aside id)

theorem listenTo (w : WorkflowId) (l : Listener) :
    Undertaking seen may below (Engine.listenTo w l : Act σ Unit) := .aside (listenTo_aside l)

theorem unlisten (w : WorkflowId) (l : Listener) :
    Undertaking seen may below (Engine.unlisten w l : Act σ Unit) := .aside (unlisten_aside l)

theorem addMessageArgument (w : WorkflowId) (v : Value) :
    Undertaking seen may below (Engine.addMessageArgument w v : Act σ Unit) :=
  .aside (addMessageArgument_aside v)

theorem setAttribute (w : WorkflowId) (name : String) (v : Value) :
    Undertaking seen may below (Engine.setAttribute w name v : Act σ Unit) :=
  .aside (setAttribute_aside name v)

theorem addQueue : Undertaking seen may below (Engine.addQueue : Act σ QueueId) :=
  .aside (always_modifyGet fun _ => aside_of_same rfl rfl rfl rfl)

theorem addManager (settings : Settings) :
    Undertaking seen may below (Engine.addManager settings : Act σ ManagerId) :=
  addQueue.bind fun _ => .aside (always_modifyGet fun _ => aside_of_same rfl rfl rfl rfl)

theorem listenToQueue (q : QueueId) (l : ListenerId) :
    Undertaking seen may below (Engine.listenToQueue q l : Act σ Unit) :=
  .aside (always_modify fun _ => aside_of_same rfl rfl rfl rfl)

theorem setSuccessor (s : StepId) (target : Option StepId) :
    Undertaking seen may below (Engine.setSuccessor s target) :=
  get.bind fun _ => (failIf _ _).bind fun _ => .addSuccessor s _ target

theorem acknowledge (s : StepId) (hm : may s .acknowledge) :
    Undertaking seen may below (Engine.acknowledge s) :=
  get.bind fun _ => (failIf _ _).bind fun _ => .resolve s _ hm

theorem startManaged (m : ManagerId) (w : WorkflowId) (context : γ) (hb : below h) :
    Undertaking seen may below (Engine.startManaged h m w context) := by
  refine get.bind fun _ => (failIf _ _).bind fun _ => ?_
  have henrol : Undertaking seen may below (Engine.accept m w >>= fun _ => Engine.register m w) :=
    .aside enrol_aside
  have := henrol.bind fun _ => .advance h w context hb
  rwa [bind_assoc] at this

theorem decide (m : ManagerId) (s : StepId) (o : Outcome) (actor : Option Actor) (context : γ) (hb : below h)
    (hm : may s o) : Undertaking seen may below (Engine.decide h m s o actor context) := by
  refine get.bind fun e => ?_
  dsimp only
  split
  · exact .bind (.aside (always_numberOf s)) fun _ => throw _
  · exact (Undertaking.decideQueued h _ s o actor hb hm).bind fun _ => .advance h _ context hb

theorem addApproval (plan : ApprovalPlan) (approver : Actor) :
    Undertaking seen may below (Engine.addApproval plan approver) := by
  refine (addDecision _ _ _ _ _).bind fun d => (forM (fun f => .aside (addFact_aside f)) _).bind fun _ =>
    (Undertaking.addSuccessor d _ _).bind fun _ => ?_
  split
  · exact (addNotification _ _ _).bind fun _ => (Undertaking.addSuccessor d _ _).bind fun _ => pure _
  · exact pure _

theorem connect (plan : ApprovalPlan) (decision? : Option StepId) :
    Undertaking seen may below (Engine.connect plan decision?) := by
  unfold Engine.connect
  dsimp only
  split
  · exact (setSuccessor _ _).bind fun _ => pure _
  · exact pure _
  · exact throw _

theorem addApprovalWorkflow (m : ManagerId) (plan : ApprovalPlan) :
    Undertaking seen may below (Engine.addApprovalWorkflow m plan) := by
  have hrest : ∀ (decision? : Option StepId) (extras : Entries String Value),
      Undertaking seen may below (Engine.connect plan decision? >>= fun first =>
        Engine.note builderLogger .debug "Built approval workflow" extras >>= fun _ =>
          Engine.addWorkflow plan.key first plan.submitter 0 []) := fun decision? extras =>
    (connect plan decision?).bind fun _ => note.bind fun _ => addWorkflow ..
  refine get.bind fun e => ?_
  dsimp only
  split
  · exact ((addApproval plan _).bind fun _ => pure _).bind fun _ => hrest _ _
  · exact hrest none _

/-- What is undertaken leaves a trail, if what the hooks do does. -/
theorem treads {m : Act σ α} (hb : ∀ h, below h → h.Obeys (Treads seen may))
    (hm : Undertaking seen may below m) : m.Always (Treads seen may) := by
  induction hm with
  | aside h => exact h.mono Aside.treads
  | look h => exact h.mono fun hl => (Did.look hl).treads nofun
  | addStep st hn => exact addStep_treads hn
  | addSuccessor s o target => exact addSuccessor_treads o target
  | addError s message => exact addError_treads message
  | start h s hbelow => exact always_of_ends fun e =>
      (start_treads (hb h hbelow) s e).mono (fun _ _ ht => ht.1) fun _ _ ht => ht
  | execute h s context hbelow => exact execute_treads (hb h hbelow)
  | setOutcome s o hmay => exact setOutcome_treads hmay
  | resolve s o hmay => exact resolve_treads hmay
  | reassign s actor => exact reassign_treads
  | enqueue h q s hbelow => exact enqueue_treads (hb h hbelow)
  | dequeue h q s hbelow => exact dequeue_treads (hb h hbelow)
  | decideQueued h q s o actor hbelow hmay => exact decideQueued_treads (hb h hbelow) hmay
  | reassignQueued h q s actor hbelow => exact reassignQueued_treads (hb h hbelow)
  | advance h w context hbelow => exact advance_treads (hb h hbelow)
  | abort h w hbelow => exact abort_treads (hb h hbelow)
  | bind _ _ ihm ihf => exact ihm.bind ihf
  | tryCatch _ _ ihm ihf => exact ihm.tryCatch ihf

end Undertaking

theorem Enterprising.obeys (hh : Enterprising seen may h) : h.Obeys (Treads seen may) := by
  induction hh with
  | intro h below nested starting execute present observe ih =>
    exact ⟨fun s => (starting s).treads ih, fun s context => (execute s context).treads ih,
      fun s context => (present s context).treads ih, fun l event => (observe l event).treads ih⟩

/-- Whatever is undertaken leaves a trail. -/
theorem Undertaking.leaves_trail {m : Act σ α}
    (hm : Undertaking seen may (Enterprising seen may : Hooks σ γ → Prop) m) (e : Engine σ) :
    ∃ trail, Trail seen e trail (m.run e).2 ∧ Answers may trail := hm.treads (fun _ => Enterprising.obeys) e

end Engine

end ApprovalFlow
