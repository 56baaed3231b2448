import ApprovalFlow.Proofs.Turns

/-!
# What driving a workflow sustains

A preorder on engines that sustains the elementary changes made in driving a workflow (`Travels`) and what
the hooks do (`Hooks.Heed`) sustains driving it. The hooks may do all that the relation sustains: they need not
be quiet. Of a relation that looks neither at queues nor at managers (`Bears`, `Flows`, `Sustains`) there is
less to be shown, since whatever managers do when they are told of an event does not matter to it.
-/

namespace ApprovalFlow

open Act

variable {σ γ : Type}

structure Step.Furthered (a b : Step) : Prop extends Step.Worked a b where
  started : a.isStarted = true → b.startTime = a.startTime

def Workflow.frame (wf : Workflow) : Workflow :=
  { wf with state := .created, history := [], startTime := Instant.unset, endTime := Instant.unset }

theorem Workflow.first_of_frame {a b : Workflow} (h : b.frame = a.frame) : b.first = a.first :=
  (congrArg Workflow.first h : b.frame.first = a.frame.first)

structure Workflow.Carried (a b : Workflow) : Prop where
  frame : b.frame = a.frame
  created : b.state = .created → a.state = .created

/-- Whatever the hooks of steps do is sustained, and that the listeners of the workflow `w` are told of what
happens to it. -/
structure Hooks.Heed (h : Hooks σ γ) (R : Engine σ → Engine σ → Prop) (w : WorkflowId) : Prop where
  starting : ∀ s, (h.starting s).Always R
  execute : ∀ s context, (h.execute s context).Always R
  present : ∀ s context, (h.present s context).Always R
  emit : ∀ kind, kind.isOfQueue = false → (Engine.emit h w kind).Always R

namespace Step

variable {a b : Step}

theorem furthered_of_frame (hf : b.frame = a.frame) (hc : a.isCompleted = false)
    (hs : a.isStarted = true → b.startTime = a.startTime) : Furthered a b :=
  ⟨worked_of_frame hc hf, hs⟩

theorem furthered_of_same (hf : b.frame = a.frame) (hs : b.state = a.state) (ho : b.outcome = a.outcome)
    (ht : b.startTime = a.startTime) : Furthered a b :=
  ⟨worked_of_same hf hs ho, fun _ => ht⟩

theorem isStarted_of_startTime (h : b.startTime = a.startTime) : b.isStarted = a.isStarted := by
  unfold isStarted
  rw [h]

end Step

namespace Engine

structure Works (R : Engine σ → Engine σ → Prop) : Prop where
  aside : ∀ e j {c : Clock}, c.reading = e.clock.reading → R e (e.aside j c)
  work : ∀ s f e, (e.step s).Furthered (f (e.step s)) → R e (e.mapStep s f)

structure Carries (R : Engine σ → Engine σ → Prop) (w : WorkflowId) : Prop extends Works R where
  flow : ∀ f e, (e.workflow w).Carried (f (e.workflow w)) → R e (e.mapWorkflow w f)

structure Travels (R : Engine σ → Engine σ → Prop) (w : WorkflowId) : Prop extends Carries R w where
  go : ∀ s t e, t ∈ e.targets s → (e.step t).isCompleted = false →
    ((e.step t).isStarted && (e.step t).context.any (· != (e.workflow w).context)) = false →
    R e ((e.mapStep t (·.boundTo (e.workflow w))).mapWorkflow w (·.moved s t))

/-- The relation sustains work on steps, and looks neither at queues nor at managers. -/
structure Bears (R : Engine σ → Engine σ → Prop) : Prop extends Works R where
  off : ∀ {e e'}, e'.steps = e.steps → e'.workflows = e.workflows → e'.contexts = e.contexts →
    e'.host = e.host → e'.clock.reading = e.clock.reading → R e e'
  aside := fun _ _ _ hc => off rfl rfl rfl rfl hc

structure Flows (R : Engine σ → Engine σ → Prop) (w : WorkflowId) : Prop extends Bears R, Carries R w

structure Sustains (R : Engine σ → Engine σ → Prop) (w : WorkflowId) : Prop extends Flows R w, Travels R w

variable {h : Hooks σ γ} {R : Engine σ → Engine σ → Prop} [IsPreorder (Engine σ) R] {w : WorkflowId}
  {s : StepId} {context : γ}

/-! ## Work on a step -/

namespace Works

variable (hb : Works R)
include hb

omit [IsPreorder (Engine σ) R] in
theorem note {logger : String} {level : Logging.Level} {text : String} {extras : Entries String Value} :
    (note logger level text extras : Act σ Unit).Always R := always_modify fun _ => hb.aside _ _ rfl

omit [IsPreorder (Engine σ) R] in
theorem readClock : (readClock : Act σ Instant).Always R :=
  always_modifyGet fun _ => hb.aside _ _ rfl

omit [IsPreorder (Engine σ) R] in
theorem updateStep {f : Step → Step} (hf : ∀ st : Step, st.Furthered (f st)) :
    (updateStep s f : Act σ Unit).Always R := always_modify fun e => hb.work s f e (hf (e.step s))

theorem startStep : (startStep s : Act σ Unit).Always R := by
  refine always_of_ends fun e => ?_
  simp only [Engine.startStep, ends_bind, ends_get, ends_failIf, ends_moveStep, ends_readClock,
    ends_updateStep, ends_note]
  cases hst : (e.step s).isStarted
  case true => exact refl e
  cases ha : (e.step s).state.allows .started
  case false => exact refl e
  simp only [Bool.false_eq_true, if_false, if_true]
  -- The step is moved, the clock is read, and the time is set on a step that has none.
  obtain ⟨e₁, he₁⟩ : ∃ e₁, e₁ = e.mapStep s ({ · with state := .started }) := ⟨_, rfl⟩
  have h₁ : R e e₁ := he₁ ▸ hb.work s ({ · with state := .started }) e
    (Step.furthered_of_frame rfl (Step.not_isCompleted_of_allows ha) fun _ => rfl)
  have hst₁ : (e₁.step s).isStarted = false := by
    rw [he₁, step_mapStep]
    split <;> exact hst
  have h₂ : R (e₁.aside e₁.journal e₁.clock.tick) ((e₁.aside e₁.journal e₁.clock.tick).mapStep s
      ({ · with startTime := e₁.clock.now })) := by
    refine hb.work s _ _ ⟨Step.worked_of_same rfl rfl rfl, fun hs => ?_⟩
    exact absurd (hst₁.symm.trans hs) Bool.false_ne_true
  have hticked : R e₁ (e₁.aside e₁.journal e₁.clock.tick) := hb.aside e₁ _ rfl
  subst he₁
  exact IsTrans.trans _ _ _ h₁ (IsTrans.trans _ _ _ hticked (IsTrans.trans _ _ _ h₂ (hb.aside _ _ rfl)))

/-- To be given an outcome is one change, since what is completed already keeps the outcome it has. -/
theorem setOutcome (o : Outcome) : (setOutcome s o : Act σ Unit).Always R := by
  refine always_of_ends fun e => ?_
  simp only [Engine.setOutcome, completeStep, ends_bind, ends_get, ends_failIf, ends_onlyIf,
    ends_moveStep, ends_readClock, ends_updateStep, ends_note]
  cases hc : (e.step s).isCompleted
  case true => exact refl e
  cases hp : (e.step s).permits o
  case false => exact refl e
  have hgiven : ∀ t j (c : Clock), c.reading = e.clock.reading →
      R e ((e.mapStep s (·.given o t)).aside j c) := fun t j c hr =>
    IsTrans.trans _ _ _ (hb.work s (·.given o t) e (Step.furthered_of_frame (Step.frame_given ..) hc
      fun _ => Step.startTime_given ..)) (hb.aside _ _ hr)
  simp only [Step.allows_completed hc, Bool.false_eq_true, Bool.not_true, if_false, if_true]
  cases ho : o.completion
  case false =>
    simp only [Step.given, ho, Bool.false_eq_true, if_false] at hgiven ⊢
    exact hgiven Instant.unset _ _ rfl
  case true =>
    simp only [Step.given, ho, if_true] at hgiven ⊢
    show R e (Engine.aside (((e.mapStep s ({ · with state := .completed })).mapStep s
      ({ · with endTime := e.clock.now })).mapStep s ({ · with outcome := o })) _ _)
    rw [mapStep_mapStep, mapStep_mapStep]
    exact hgiven e.clock.now _ _ rfl

theorem guarding {α : Type} {action : Act σ α} (ha : action.Always R) :
    (guarding w s action).Always R := by
  refine ha.tryCatch fun f => ?_
  split
  · refine Always.bind (hb.updateStep fun st => ?_) fun _ => always_get.bind fun _ => ?_
    · exact Step.furthered_of_same rfl rfl rfl rfl
    · exact hb.note.bind fun _ => always_throw _
  · exact always_throw _

theorem start (hs : (h.starting s).Always R) : (Engine.start h s).Always R :=
  hs.bind fun _ => always_get.bind fun _ => (always_failIf _ _).bind fun _ => hb.startStep

theorem presentDecision (hp : (h.present s context).Always R) :
    (presentDecision h s context).Always R := by
  refine hp.bind fun _ => Always.bind (hb.updateStep fun st => ?_) fun _ =>
    always_get.bind fun _ => hb.note
  refine Step.furthered_of_same ?_ rfl rfl rfl
  cases hd : st.decision <;> simp only [Step.frame, hd, Option.map_none, Option.map_some]

theorem execute (hx : (h.execute s context).Always R) (hp : (h.present s context).Always R) :
    (execute h s context).Always R := by
  refine always_get.bind fun e => ?_
  split
  · exact (hb.presentDecision hp).bind fun _ => always_pure _
  · exact hx

theorem executeStep (hx : (h.execute s context).Always R) (hp : (h.present s context).Always R) :
    (executeStep h w s context).Always R :=
  (hb.guarding (hb.execute hx hp)).bind fun o => always_get.bind fun _ => (hb.setOutcome o).onlyIf _

/-- Running a step is sustained if the hooks that are called for it are. -/
theorem runStep (hs : (h.starting s).Always R) (hx : (h.execute s context).Always R)
    (hp : (h.present s context).Always R) : (runStep h w s context).Always R :=
  always_get.bind fun _ => ((hb.guarding (hb.start hs)).onlyIf _).bind fun _ =>
    (hb.executeStep hx hp).onlyIf _

/-- Resolving a decision gives it an outcome at most. -/
theorem resolve (o : Outcome) : (resolve s o : Act σ Unit).Always R :=
  always_get.bind fun _ => (always_failIf _ _).bind fun _ => (always_failIf _ _).bind fun _ =>
    (hb.setOutcome o).bind fun _ => hb.note

end Works

/-! ## Driving -/

namespace Carries

variable (hf : Carries R w)
include hf

omit [IsPreorder (Engine σ) R] in
theorem updateWorkflow {f : Workflow → Workflow} (hc : ∀ wf : Workflow, wf.Carried (f wf)) :
    (updateWorkflow w f : Act σ Unit).Always R := always_modify fun e => hf.flow f e (hc (e.workflow w))

theorem moveWorkflow {next : WorkflowState} (hn : next ≠ .created) :
    (moveWorkflow w next : Act σ Unit).Always R := by
  refine always_get.bind fun _ => (always_failIf _ _).bind fun _ => ?_
  exact Always.bind (hf.updateWorkflow fun _ => ⟨rfl, fun h => absurd h hn⟩) fun _ => hf.note

omit [IsPreorder (Engine σ) R] in
theorem record : (record w s : Act σ Unit).Always R := hf.updateWorkflow fun _ => ⟨rfl, id⟩

section Told

variable (hemit : ∀ kind : EventKind, kind.isOfQueue = false → (emit h w kind).Always R)
include hemit

theorem finish {next : WorkflowState} (hn : next ≠ .created) {kind : EventKind} (hk : kind.isOfQueue = false) :
    (finish h w next kind).Always R := by
  refine (hf.moveWorkflow hn).bind fun _ => hf.readClock.bind fun _ => ?_
  exact Always.bind (hf.updateWorkflow fun _ => ⟨rfl, id⟩) fun _ => hemit _ hk

theorem pause : (pause h w s).Always R := by
  refine always_get.bind fun e => ?_
  dsimp only
  split
  · refine Always.bind (hf.moveWorkflow (by decide)) fun _ => ?_
    exact (hemit _ rfl).bind fun _ => always_pure _
  · exact always_pure _

/-- Before the first turn of an `advance`. -/
theorem enter : (enter h w).Always R := by
  refine always_get.bind fun e => (always_failIf _ _).bind fun _ => ?_
  split
  · split
    · refine Always.bind (hf.moveWorkflow (by decide)) fun _ => ?_
      exact (hemit _ rfl).bind fun _ => always_pure _
    · exact always_pure _
  · refine Always.bind (hf.moveWorkflow (by decide)) fun _ => hf.readClock.bind fun _ => ?_
    refine Always.bind (hf.updateWorkflow fun _ => ⟨rfl, id⟩) fun _ => ?_
    exact (hemit _ rfl).bind fun _ => always_pure _
  · exact always_pure _

/-- Aborting is sustained. -/
theorem abort : (abort h w).Always R := by
  refine always_get.bind fun e => (always_failIf _ _).bind fun _ => ?_
  exact ((hf.setOutcome _).onlyIf _).bind fun _ => (hf.record.onlyIf _).bind fun _ =>
    hf.finish hemit (by decide) rfl

end Told

end Carries

namespace Travels

variable (hs : Travels R w)
include hs

/-- Going on to the step that follows is sustained. -/
theorem follow {e : Engine σ} {t : StepId} (ht : t ∈ e.targets s) (o : Outcome) :
    (follow w s t o).Ends e (fun _ => R e) (fun _ => R e) := by
  simp only [Engine.follow, ends_bind, ends_get, ends_failIf, ends_bindStep, ends_updateWorkflow,
    ends_note]
  cases hc : (e.step t).isCompleted
  case true => exact refl e
  rw [if_neg Bool.false_ne_true]
  split
  · exact refl e
  · rename_i hb
    exact IsTrans.trans _ _ _ (hs.go s t e ht hc (Bool.not_eq_true _ ▸ hb)) (hs.aside _ _ rfl)

section Told

variable (hemit : ∀ kind : EventKind, kind.isOfQueue = false → (emit h w kind).Always R)
include hemit

theorem leave : (leave h w s).Always R := by
  refine hs.record.bind fun _ => always_of_ends fun e => ?_
  rw [ends_bind, ends_get]
  dsimp only
  split
  · exact (Always.bind (hs.finish hemit (by decide) rfl) fun _ => always_pure _).ends e
  · split
    · exact (Always.bind (hs.finish hemit (by decide) rfl) fun _ => always_pure _).ends e
    · rename_i t ht
      rw [ends_bind]
      exact hs.follow (mem_targets_of_next? ht) _

end Told

variable (hh : h.Heed R w)
include hh

theorem turn : (turn h w context).Always R := by
  refine always_get.bind fun _ => always_get.bind fun _ => Always.bind (Always.onlyIf ?_ _) fun _ =>
    always_get.bind fun _ => ?_
  · exact hs.runStep (hh.starting _) (hh.execute _ _) (hh.present _ _)
  · split
    · exact hs.leave hh.emit
    · exact hs.pause hh.emit

theorem traverse (turns : Nat) : (traverse h w context turns).Always R := by
  induction turns with
  | zero => exact always_throw _
  | succ turns ih =>
    refine (hs.turn hh).bind fun progress => ?_
    cases progress with
    | stop state => exact always_pure state
    | goOn => exact ih

theorem process : (process h w context).Always R := always_get.bind fun _ => hs.traverse hh _

/-- Advancing is sustained. -/
theorem advance : (advance h w context).Always R := by
  rw [advance_eq_enter]
  refine (hs.enter hh.emit).bind fun go => ?_
  split
  · exact hs.process hh
  · exact always_pure _

end Travels

/-! ## Relations that look neither at queues nor at managers -/

namespace Bears

variable (hb : Bears R)
include hb

omit [IsPreorder (Engine σ) R] in
/-- Where queues and managers alone have changed. -/
theorem apart {e e' : Engine σ} (hs : e'.steps = e.steps) (hw : e'.workflows = e.workflows)
    (hc : e'.contexts = e.contexts) (hh : e'.host = e.host) (hk : e'.clock = e.clock) : R e e' :=
  hb.off hs hw hc hh (by rw [hk])

theorem emit (hobs : ∀ l event, (h.observe l event).Always R) (kind : EventKind) :
    (emit h w kind).Always R := always_emit hb.apart hobs w kind

end Bears

end Engine

end ApprovalFlow
