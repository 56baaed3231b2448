import ApprovalFlow.Proofs.Turns

/-!
# What driving a workflow keeps to

A preorder on engines that tolerates the elementary changes made in driving a workflow with quiet hooks
(`Tolerates`) tolerates driving it: whatever `advance` and `abort` result in, they lead to an engine that
stands in that relation to the one before.
-/

namespace ApprovalFlow

/-- The step has got remarks at most: errors, or that it has been put to its actor. -/
structure Step.Remarked (a b : Step) : Prop where
  frame : b.frame = a.frame
  state : b.state = a.state
  outcome : b.outcome = a.outcome
  startTime : b.startTime = a.startTime

namespace Engine

open Act

variable {σ γ : Type}

/-- The relation tolerates each change of a step or of the workflow `w` that is made in driving `w`. -/
structure Tolerates (R : Engine σ → Engine σ → Prop) (w : WorkflowId) : Prop where
  off : ∀ {e e'}, e'.steps = e.steps → e'.workflows = e.workflows → R e e'
  flow : ∀ f e, R e (e.mapWorkflow w f)
  remark : ∀ s f e, (e.step s).Remarked (f (e.step s)) → R e (e.mapStep s f)
  start : ∀ s t e, (e.step s).isStarted = false → (e.step s).isCompleted = false →
    R e (e.mapStep s ({ · with state := .started, startTime := t }))
  give : ∀ s o t e, (e.step s).isCompleted = false → (e.step s).isDecision = false →
    R e (e.mapStep s (·.given o t))
  bind : ∀ s id c e, ((e.step s).isStarted && (e.step s).context.any (· != c)) = false →
    R e (e.mapStep s ({ · with workflowId := some id, context := some c }))

namespace Tolerates

variable {h : Hooks σ γ} {R : Engine σ → Engine σ → Prop} [IsPreorder (Engine σ) R] {w : WorkflowId}
  {s : StepId} {context : γ} {e e' e'' : Engine σ}

section Elementary

variable (ht : Tolerates R w)
include ht

omit [IsPreorder (Engine σ) R] in
theorem of_core (hc : e'.core = e.core) : R e e' :=
  ht.off (congrArg Core.steps hc) (congrArg Core.workflows hc)

theorem core (hr : R e e') (hc : e''.core = e'.core) : R e e'' := IsTrans.trans _ _ _ hr (ht.of_core hc)

omit [IsPreorder (Engine σ) R] in
theorem note {logger : String} {level : Logging.Level} {text : String} {extras : Entries String Value} :
    (note logger level text extras : Act σ Unit).Always R := always_modify fun _ => ht.off rfl rfl

omit [IsPreorder (Engine σ) R] in
theorem updateWorkflow {f : Workflow → Workflow} : (updateWorkflow w f : Act σ Unit).Always R :=
  always_modify (ht.flow f)

omit [IsPreorder (Engine σ) R] in
theorem readClock : (readClock : Act σ Instant).Always R := always_modifyGet fun _ => ht.off rfl rfl

theorem moveWorkflow {next : WorkflowState} : (moveWorkflow w next : Act σ Unit).Always R :=
  always_get.bind fun _ => (always_failIf _ _).bind fun _ => ht.updateWorkflow.bind fun _ => ht.note

theorem startStep : (startStep s : Act σ Unit).Always R := by
  refine always_of_ends fun e => (startStep_ends s e).mono ?_ fun _ e' he => ?_
  · rintro _ e' ⟨hs, hc, he⟩
    exact ht.core (ht.start s e.clock.now e hs hc) he.core
  · rw [he]
    exact refl e

theorem bindStep {id : Int} {c : ContextId} : (bindStep s id c : Act σ Unit).Always R := by
  refine always_of_ends fun e => (ends_bindStep s id c).mpr ?_
  split
  · exact refl e
  · rename_i hb
    exact ht.bind s id c e (Bool.not_eq_true _ ▸ hb)

omit ht [IsPreorder (Engine σ) R] in
theorem remarked_error (st : Step) (text : String) :
    st.Remarked { st with errors := st.errors ++ [text] } := ⟨rfl, rfl, rfl, rfl⟩

omit ht [IsPreorder (Engine σ) R] in
theorem remarked_begun (st : Step) :
    st.Remarked { st with decision := st.decision.map ({ · with begun := true }) } := by
  refine ⟨?_, rfl, rfl, rfl⟩
  cases hd : st.decision <;> simp only [Step.frame, hd, Option.map_none, Option.map_some]

/-- What is noted of a failure is but a remark. -/
theorem ends_guarding {α : Type} {action : Act σ α} {Q : α → Engine σ → Prop}
    (ha : action.Ends e Q (fun _ => R e)) : (guarding w s action).Ends e Q (fun _ => R e) := by
  refine Engine.ends_guarding ha fun _ e' hr text e'' he _ => ?_
  exact ht.core (IsTrans.trans _ _ _ hr (ht.remark s _ e' (remarked_error _ text))) he.core

end Elementary

section Hooked

variable (ht : Tolerates R w) (hq : h.Quiet)
include ht hq

theorem start_ends : (Engine.start h s).Always R :=
  ((hq.starting s).mono ht.of_core).bind fun _ => always_get.bind fun _ =>
    (always_failIf _ _).bind fun _ => ht.startStep

/-- To execute a decision is to put it to its actor, which results in no outcome for it. -/
theorem execute_ends :
    (execute h s context).Ends e
      (fun o e' => R e e' ∧ (o = .proceed ∨ (e'.step s).isDecision = false)) (fun _ => R e) := by
  unfold execute
  rw [ends_bind, ends_get]
  cases hd : (e.step s).isDecision
  case true =>
    have hpresent : (presentDecision h s context).Always R := by
      refine ((hq.present s context).mono ht.of_core).bind fun _ => ?_
      refine Always.bind (always_modify fun e => ht.remark s _ e (remarked_begun _)) fun _ => ?_
      exact always_get.bind fun _ => ht.note
    rw [if_pos rfl, ends_bind]
    exact (hpresent.ends e).mono (fun _ _ hr => ⟨hr, .inl rfl⟩) fun _ _ hr => hr
  case false =>
    rw [if_neg Bool.false_ne_true]
    refine ((hq.execute s context).ends e).mono (fun _ e' hc => ⟨ht.of_core hc, .inr ?_⟩)
      fun _ _ hc => ht.of_core hc
    rw [step_of_core hc, hd]

theorem executeStep : (executeStep h w s context).Always R := by
  refine always_of_ends fun e => ?_
  unfold Engine.executeStep
  rw [ends_bind]
  refine ht.ends_guarding ((ht.execute_ends hq).mono ?_ fun _ _ hr => hr)
  rintro o e₁ ⟨hr, ho⟩
  rw [ends_bind, ends_get, ends_onlyIf]
  split
  · rename_i hset
    -- The outcome is not to go on, so the step is no decision.
    have hd : (e₁.step s).isDecision = false := by
      refine ho.resolve_left fun hp => ?_
      simp [hp, Outcome.same] at hset
    refine (setOutcome_ends s o e₁).mono ?_ ?_
    · rintro _ e₂ ⟨hc, t, h₂⟩
      exact ht.core (IsTrans.trans _ _ _ hr (ht.give s o t e₁ hc hd)) h₂.core
    · rintro _ e₂ ⟨rfl, -⟩
      exact hr
  · exact hr

theorem runStep : (runStep h w s context).Always R := by
  have hstart : (guarding w s (Engine.start h s)).Always R :=
    always_of_ends fun e => ht.ends_guarding ((ht.start_ends hq).ends e)
  exact always_get.bind fun _ => (hstart.onlyIf _).bind fun _ => (ht.executeStep hq).onlyIf _

theorem emit {v : WorkflowId} {kind : EventKind} : (emit h v kind).Always R :=
  always_emit (fun hs hw _ _ _ => ht.off hs hw) (fun l event => (hq.observe l event).mono ht.of_core) v kind

theorem finish {next : WorkflowState} {kind : EventKind} : (finish h w next kind).Always R :=
  ht.moveWorkflow.bind fun _ => ht.readClock.bind fun _ => ht.updateWorkflow.bind fun _ => ht.emit hq

theorem leave : (leave h w s).Always R := by
  refine ht.updateWorkflow.bind fun _ => always_get.bind fun e => ?_
  dsimp only
  split
  · exact (ht.finish hq).bind fun _ => always_pure _
  split
  · exact (ht.finish hq).bind fun _ => always_pure _
  · refine Always.bind (always_get.bind fun _ => (always_failIf _ _).bind fun _ => ?_) fun _ =>
      always_pure _
    exact ht.bindStep.bind fun _ => ht.updateWorkflow.bind fun _ => ht.note

theorem pause : (pause h w s).Always R := by
  refine always_get.bind fun e => ?_
  dsimp only
  split
  · exact ht.moveWorkflow.bind fun _ => (ht.emit hq).bind fun _ => always_pure _
  · exact always_pure _

theorem turn : (turn h w context).Always R := by
  refine always_get.bind fun _ => always_get.bind fun _ => ((ht.runStep hq).onlyIf _).bind fun _ =>
    always_get.bind fun _ => ?_
  split
  · exact ht.leave hq
  · exact ht.pause hq

theorem process : (process h w context).Always R := by
  refine always_get.bind fun e => ?_
  -- Each turn keeps to the relation, and so does any number of them.
  generalize e.steps.size + 1 + h.room = turns
  induction turns with
  | zero => exact always_throw _
  | succ turns ih =>
    refine (ht.turn hq).bind fun progress => ?_
    cases progress with
    | stop state => exact always_pure state
    | goOn => exact ih

/-- Advancing the workflow keeps to the relation. -/
theorem advance : (advance h w context).Always R := by
  refine always_get.bind fun e => (always_failIf _ _).bind fun _ => ?_
  split
  · split
    · exact ht.moveWorkflow.bind fun _ => (ht.emit hq).bind fun _ => ht.process hq
    · exact always_pure _
  · exact ht.moveWorkflow.bind fun _ => ht.readClock.bind fun _ => ht.updateWorkflow.bind fun _ =>
      (ht.emit hq).bind fun _ => ht.process hq
  · exact ht.process hq

/-- Aborting the workflow keeps to the relation if aborting the step that it is on does. -/
theorem abort (hgive : ∀ t, (e.step (e.workflow w).current).isCompleted = false →
      R e (e.mapStep (e.workflow w).current (·.given .abort t))) :
    (abort h w).Ends e (fun _ => R e) (fun _ => R e) := by
  simp only [Engine.abort, ends_bind, ends_get, ends_failIf]
  split
  · exact refl e
  have hclose : ∀ e₁ : Engine σ, R e e₁ →
      (onlyIf ((e.workflow w).history.getLast? != some (e.workflow w).current)
        (record w (e.workflow w).current) >>= fun _ =>
          Engine.finish h w .aborted (.aborted Outcome.abort.key)).Ends e₁ (fun _ => R e)
            (fun _ => R e) := by
    intro e₁ h₁
    have hrecord : (record w (e.workflow w).current : Act σ Unit).Always R := ht.updateWorkflow
    exact (((hrecord.onlyIf _).bind fun _ => ht.finish hq).ends e₁).mono
      (fun _ _ h₂ => IsTrans.trans _ _ _ h₁ h₂) fun _ _ h₂ => IsTrans.trans _ _ _ h₁ h₂
  rw [ends_onlyIf]
  split
  · refine (setOutcome_ends _ .abort e).mono ?_ ?_
    · rintro _ e₁ ⟨hc, t, h₁⟩
      exact (ends_bind _ _).mp (hclose e₁ (ht.core (hgive t hc) h₁.core))
    · rintro _ e₁ ⟨rfl, -⟩
      exact refl e₁
  · exact (ends_bind _ _).mp (hclose e (refl e))

end Hooked

end Tolerates

end Engine

end ApprovalFlow
