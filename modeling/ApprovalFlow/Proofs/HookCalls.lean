import ApprovalFlow.Proofs.DrivingInvariants

/-!
# Which steps hooks are called for

Hooks log each step for which one of them is called, with what it is bound to at that moment. A traversal
binds each step that it goes on to, but not the one that it begins with. So `advance` runs all its steps at
home, bound to its own workflow, unless it begins with one that is due and bound elsewhere
(`advance_sees_iff`).
-/

namespace ApprovalFlow

open Act

variable {σ γ : Type}

structure Binding where
  id : Option Int
  context : Option ContextId
  deriving Repr, DecidableEq

def Step.binding (st : Step) : Binding := ⟨st.workflowId, st.context⟩

def Workflow.home (wf : Workflow) : Binding := ⟨some wf.id, some wf.context⟩

/-- Whether the step is run when its turn comes: it is not completed, and not before its actor. -/
def Step.isDue (st : Step) : Bool := !st.isCompleted && !(st.isStarted && st.isPending)

/-- A step for which a hook was called, with what it was bound to then. -/
structure Sighting where
  step : StepId
  binding : Binding
  deriving Repr, DecidableEq

def Engine.sighting (e : Engine σ) (s : StepId) : Sighting := ⟨s, (e.step s).binding⟩

/-- A hook has noted `new` in the log `sights`, and has called no operation of the engine. -/
structure Engine.Noted (sights : σ → List Sighting) (new : List Sighting) (e e' : Engine σ) : Prop where
  core : e'.core = e.core
  contexts : e'.contexts.size = e.contexts.size
  log : sights e'.host = sights e.host ++ new

/-- Hooks that call no operation of the engine, and log each step for which one of them is called. -/
structure Hooks.Sights (h : Hooks σ γ) (sights : σ → List Sighting) : Prop where
  starting : ∀ s, (h.starting s).Always fun e => e.Noted sights [e.sighting s]
  execute : ∀ s context, (h.execute s context).Always fun e => e.Noted sights [e.sighting s]
  present : ∀ s context, (h.present s context).Always fun e => e.Noted sights [e.sighting s]
  observe : ∀ l event, (h.observe l event).Always (Engine.Noted sights [])

theorem Hooks.Sights.quiet {h : Hooks σ γ} {sights : σ → List Sighting} (hs : h.Sights sights) :
    h.Quiet where
  starting s := (hs.starting s).mono fun hn => hn.core
  execute s context := (hs.execute s context).mono fun hn => hn.core
  present s context := (hs.present s context).mono fun hn => hn.core
  observe l event := (hs.observe l event).mono fun hn => hn.core

theorem Step.binding_of_frame {a b : Step} (h : b.frame = a.frame) : b.binding = a.binding :=
  (congrArg Step.binding h : b.frame.binding = a.frame.binding)

theorem Workflow.home_of_frame {a b : Workflow} (h : b.frame = a.frame) : b.home = a.home :=
  (congrArg Workflow.home h : b.frame.home = a.frame.home)

theorem Workflow.current_of_frame {a b : Workflow} (h : b.frame = a.frame) : b.current = a.current :=
  (congrArg Workflow.current h : b.frame.current = a.frame.current)

namespace Engine

variable {h : Hooks σ γ} {sights : σ → List Sighting} {w v : WorkflowId} {s : StepId} {context : γ}
  {e e' : Engine σ}

/-! ## What the hooks see -/

def Sees (sights : σ → List Sighting) (p : Sighting → Prop) (e e' : Engine σ) : Prop :=
  ∃ new, sights e'.host = sights e.host ++ new ∧ ∀ x ∈ new, p x

section Seeing

variable {p q : Sighting → Prop}

instance : IsPreorder (Engine σ) (Sees sights p) where
  refl _ := ⟨[], (List.append_nil _).symm, nofun⟩
  trans e₁ e₂ e₃ := by
    rintro ⟨new, hn, hp⟩ ⟨new', hn', hp'⟩
    refine ⟨new ++ new', by rw [hn', hn, List.append_assoc], fun x hx => ?_⟩
    exact (List.mem_append.mp hx).elim (hp x) (hp' x)

theorem Sees.mono (hs : Sees sights p e e') (hpq : ∀ x, p x → q x) : Sees sights q e e' := by
  obtain ⟨new, hn, hp⟩ := hs
  exact ⟨new, hn, fun x hx => hpq x (hp x hx)⟩

theorem sees_of_log (hl : sights e'.host = sights e.host) : Sees sights p e e' :=
  ⟨[], by rw [hl, List.append_nil], nofun⟩

structure Shown (sights : σ → List Sighting) (s : StepId) (e e' : Engine σ) : Prop where
  binding : (e'.step s).binding = (e.step s).binding
  sees : Sees sights (· = e.sighting s) e e'

instance : IsPreorder (Engine σ) (Shown sights s) where
  refl e := ⟨rfl, refl e⟩
  trans e₁ e₂ e₃ h₁ h₂ := by
    have hsame : e₂.sighting s = e₁.sighting s := by
      unfold sighting
      rw [h₁.binding]
    exact ⟨h₂.binding.trans h₁.binding, IsTrans.trans _ _ _ h₁.sees (hsame ▸ h₂.sees)⟩

theorem bears_shown : Bears (Shown sights s) where
  off hs _ _ hh _ := ⟨by rw [step_of_steps hs], sees_of_log (by rw [hh])⟩
  work _ _ _ hf := ⟨step_mapStep_eq (Step.binding_of_frame hf.frame) s, sees_of_log rfl⟩

theorem Noted.shown (hn : e.Noted sights [e.sighting s] e') : Shown sights s e e' where
  binding := by rw [step_of_core hn.core]
  sees := ⟨[e.sighting s], hn.log, fun _ hx => List.mem_singleton.mp hx⟩

/-- No hook has been called but those of listeners, which leave no trace in the log. -/
def Unseen {κ : Type} (log : σ → κ) (e e' : Engine σ) : Prop := log e'.host = log e.host

instance {κ : Type} {log : σ → κ} : IsPreorder (Engine σ) (Unseen log) where
  refl _ := rfl
  trans _ _ _ h₁ h₂ := Eq.trans h₂ h₁

theorem sustains_unseen {κ : Type} {log : σ → κ} : Sustains (Unseen log) w where
  off _ _ _ hh _ := congrArg log hh
  work _ _ _ _ := rfl
  flow _ _ _ := rfl
  go _ _ _ _ _ _ := rfl

def Retains (sights : σ → List Sighting) (e e' : Engine σ) : Prop := sights e.host <+: sights e'.host

instance : IsPreorder (Engine σ) (Retains sights) where
  refl _ := List.prefix_rfl
  trans _ _ _ := List.IsPrefix.trans

def Called (sights : σ → List Sighting) (s : StepId) (e e' : Engine σ) : Prop :=
  sights e.host ++ [e.sighting s] <+: sights e'.host

/-- The hooks are called for `x` when the current step of the workflow `w` is run. -/
def Expects (e : Engine σ) (w : WorkflowId) (x : Sighting) : Prop :=
  (e.step (e.workflow w).current).isDue = true ∧ x = e.sighting (e.workflow w).current

/-- A decision that is before its actor is left alone. -/
theorem runStep_idle (hst : (e.step s).isStarted = true) (hp : (e.step s).isPending = true)
    {Q : Unit → Engine σ → Prop} {F : Failure → Engine σ → Prop} (hq : Q () e) :
    (runStep h w s context).Ends e Q F := by
  simp only [runStep, ends_bind, ends_get, ends_onlyIf, hst, hp]
  exact hq

variable (hs : h.Sights sights)
include hs

theorem emit_unseen (kind : EventKind) : (emit h w kind).Always (Unseen sights) :=
  (sustains_unseen (w := w)).emit
    (fun l event => (hs.observe l event).mono fun hn => hn.log.trans (List.append_nil _)) kind

/-- Running a step calls for that step at most. -/
theorem runStep_shown : (runStep h w s context).Always (Shown sights s) :=
  bears_shown.runStep ((hs.starting s).mono Noted.shown) ((hs.execute s context).mono Noted.shown)
    ((hs.present s context).mono Noted.shown)

/-- A turn calls for the current step at most, and only if that is due. -/
theorem turn_sees : (turn h w context).Always fun e => Sees sights (e.Expects w) e := by
  refine always_of_ends fun e => ?_
  unfold turn
  rw [ends_bind, ends_get, ends_bind, ends_get, ends_bind]
  -- What comes after the step has been run calls for nothing.
  have hrest : ∀ e₁, Sees sights (e.Expects w) e e₁ →
      (if (e₁.step (e.workflow w).current).isCompleted then leave h w (e.workflow w).current
        else pause h w (e.workflow w).current).Ends e₁ (fun _ => Sees sights (e.Expects w) e)
          (fun _ => Sees sights (e.Expects w) e) := by
    intro e₁ h₁
    have hun : ∀ e₂, Unseen sights e₁ e₂ → Sees sights (e.Expects w) e e₂ := fun e₂ h₂ =>
      IsTrans.trans _ _ _ h₁ (sees_of_log h₂)
    split
    · exact ((sustains_unseen.leave fun kind _ => emit_unseen hs kind).ends e₁).mono (fun _ => hun) fun _ => hun
    · exact ((sustains_unseen.pause fun kind _ => emit_unseen hs kind).ends e₁).mono (fun _ => hun) fun _ => hun
  rw [ends_onlyIf]
  split
  · rename_i hc
    cases hd : (e.step (e.workflow w).current).isDue
    case true =>
      have hexp : ∀ e₁, Shown sights (e.workflow w).current e e₁ → Sees sights (e.Expects w) e e₁ :=
        fun e₁ h₁ => h₁.sees.mono fun x hx => ⟨hd, hx⟩
      exact ((runStep_shown hs).ends e).mono (fun _ e₁ h₁ => hrest e₁ (hexp e₁ h₁))
        fun _ e₁ h₁ => hexp e₁ h₁
    case false =>
      unfold Step.isDue at hd
      rw [hc, Bool.true_and, Bool.not_eq_false', Bool.and_eq_true] at hd
      exact runStep_idle hd.1 hd.2 (hrest e (refl e))
  · exact hrest e (refl e)

omit hs in
theorem sustains_retains : Sustains (Retains sights) w where
  off _ _ _ hh _ := by simp only [Retains, hh, List.prefix_rfl]
  work _ _ _ _ := List.prefix_rfl
  flow _ _ _ := List.prefix_rfl
  go _ _ _ _ _ _ := List.prefix_rfl

omit hs in
theorem Noted.retains {new : List Sighting} (hn : e.Noted sights new e') : Retains sights e e' :=
  ⟨new, hn.log.symm⟩

omit hs in
theorem Called.retains {e₀ : Engine σ} (hc : Called sights s e₀ e) (hg : Retains sights e e') :
    Called sights s e₀ e' := List.IsPrefix.trans hc hg

omit hs in
theorem Called.ends {e₀ : Engine σ} {α : Type} {m : Act σ α} (hc : Called sights s e₀ e)
    (hm : m.Always (Retains sights)) :
    m.Ends e (fun _ => Called sights s e₀) (fun _ => Called sights s e₀) :=
  (hm.ends e).mono (fun _ _ => hc.retains) fun _ _ => hc.retains

omit hs in
theorem Called.guarding {α : Type} {m : Act σ α}
    (hm : m.Ends e (fun _ => Called sights s e) (fun _ => Called sights s e)) :
    (guarding w s m).Ends e (fun _ => Called sights s e) (fun _ => Called sights s e) :=
  ends_guarding hm fun _ _ hc _ _ ha _ => hc.retains (by rw [Retains, ha.host]; exact List.prefix_rfl)

/-- A step that is due is called for as it is bound. -/
theorem runStep_calls (hd : (e.step s).isDue = true) :
    (runStep h w s context).Ends e (fun _ => Called sights s e) (fun _ => Called sights s e) := by
  have hretains : Sustains (Retains sights) w := sustains_retains
  have hcalled : ∀ {e₁ : Engine σ}, e.Noted sights [e.sighting s] e₁ → Called sights s e e₁ :=
    fun hn => ⟨[], (List.append_nil _).trans hn.log.symm⟩
  have hexecute : (executeStep h w s context).Ends e (fun _ => Called sights s e)
      (fun _ => Called sights s e) := by
    unfold executeStep
    rw [ends_bind]
    refine Ends.mono (Called.guarding ?_) (fun o e₁ h₁ => h₁.ends ?_) fun _ _ h₁ => h₁
    · unfold execute
      rw [ends_bind, ends_get]
      split
      · unfold presentDecision
        rw [ends_bind, ends_bind]
        refine ((hs.present s context).ends e).mono (fun _ e₁ h₁ => ?_) fun _ _ => hcalled
        refine (hcalled h₁).ends (Always.bind (fun _ => List.prefix_rfl) fun _ => ?_)
        exact always_get.bind fun _ => hretains.note
      · exact ((hs.execute s context).ends e).mono (fun _ _ => hcalled) fun _ _ => hcalled
    · exact always_get.bind fun _ => (hretains.setOutcome o).onlyIf _
  unfold runStep
  rw [ends_bind, ends_get, ends_bind, ends_onlyIf]
  unfold Step.isDue at hd
  rw [Bool.and_eq_true, Bool.not_eq_true'] at hd
  cases hst : (e.step s).isStarted
  case true =>
    rw [hst, Bool.true_and] at hd
    rw [if_neg (by decide), ends_onlyIf, Bool.true_and, if_pos hd.2]
    exact hexecute
  case false =>
    -- The step has not started, so the hook that runs before its start is the first to be called.
    have hstart : (start h s).Ends e (fun _ => Called sights s e) (fun _ => Called sights s e) := by
      unfold start
      rw [ends_bind]
      refine ((hs.starting s).ends e).mono (fun _ e₁ h₁ => (hcalled h₁).ends ?_) fun _ _ => hcalled
      exact always_get.bind fun _ => (always_failIf _ _).bind fun _ => hretains.startStep
    rw [if_pos (by decide)]
    refine (Called.guarding hstart).mono (fun _ e₁ h₁ => h₁.ends (Always.onlyIf ?_ _)) fun _ _ h₁ => h₁
    exact hretains.executeStep ((hs.execute s context).mono Noted.retains)
      ((hs.present s context).mono Noted.retains)

theorem heed_retains : h.Heed (Retains sights) w where
  starting s := (hs.starting s).mono Noted.retains
  execute s context := (hs.execute s context).mono Noted.retains
  present s context := (hs.present s context).mono Noted.retains
  emit kind _ := (sustains_retains (w := w)).emit (fun l event => (hs.observe l event).mono Noted.retains) kind

theorem process_calls (hd : (e.step (e.workflow w).current).isDue = true) :
    (process h w context).Ends e (fun _ => Called sights (e.workflow w).current e)
      (fun _ => Called sights (e.workflow w).current e) := by
  have hretains : Sustains (Retains sights) w := sustains_retains
  have hheed : h.Heed (Retains sights) w := heed_retains hs
  have hopen : (e.step (e.workflow w).current).isCompleted = false := by
    unfold Step.isDue at hd
    exact Bool.not_eq_true' _ ▸ (Bool.and_eq_true _ _ ▸ hd).1
  have hturn : (turn h w context).Ends e (fun _ => Called sights (e.workflow w).current e)
      (fun _ => Called sights (e.workflow w).current e) := by
    unfold turn
    rw [ends_bind, ends_get, ends_bind, ends_get, ends_bind, ends_onlyIf, hopen, if_pos (by decide)]
    refine (runStep_calls hs hd).mono (fun _ e₁ h₁ => h₁.ends ?_) fun _ _ h₁ => h₁
    refine always_get.bind fun e₂ => ?_
    split
    · exact hretains.leave hheed.emit
    · exact hretains.pause hheed.emit
  unfold process
  rw [ends_bind, ends_get, show e.steps.size + 1 + h.room = e.steps.size + h.room + 1 by omega]
  unfold traverse
  rw [ends_bind]
  refine hturn.mono (fun progress e₁ h₁ => h₁.ends ?_) fun _ _ h₁ => h₁
  cases progress with
  | stop state => exact always_pure state
  | goOn => exact hretains.traverse hheed _

end Seeing

/-! ## Where a traversal runs its steps -/

/-- The workflow `w` is running with the home `b`, and all successors are there. -/
structure Homeward (w : WorkflowId) (b : Binding) (e : Engine σ) : Prop where
  hasWorkflow : e.HasWorkflow w
  running : (e.workflow w).state = .running
  home : (e.workflow w).home = b
  closed : ∀ s, ∀ t ∈ e.targets s, e.HasStep t

def Strayed (w : WorkflowId) (e : Engine σ) : Prop :=
  (e.step (e.workflow w).current).binding ≠ (e.workflow w).home

def Due (h : Hooks σ γ) (w : WorkflowId) (e : Engine σ) : Prop :=
  ((enter h w).run e).1 = .ok true ∧ (e.step (e.workflow w).current).isDue = true

/-- An `advance` of the workflow would run a step that is bound elsewhere. -/
def Astray (h : Hooks σ γ) (w : WorkflowId) (e : Engine σ) : Prop := Strayed w e ∧ Due h w e

theorem Homeward.worked {seen : σ → List StepId} {b : Binding} (hu : Homeward w b e)
    (hw : Worked seen s e e') : Homeward w b e' where
  hasWorkflow := (hw.hasWorkflow w).mpr hu.hasWorkflow
  running := by rw [hw.workflow, hu.running]
  home := by rw [hw.workflow, hu.home]
  closed t u ht := (hw.hasStep u).mpr (hu.closed t u (hw.targets t ▸ ht))

/-- A workflow that goes on to a step binds it. -/
theorem Homeward.moves {b : Binding} {t : StepId} (hu : Homeward w b e) (ht : t ∈ e.targets s)
    (he : e'.Alike ((e.mapStep t (·.boundTo (e.workflow w))).mapWorkflow w fun wf =>
      (wf.left s).moved s t)) :
    Homeward w b e' ∧ (e'.step (e'.workflow w).current).binding = b := by
  have hwf := workflow_of_follows he hu.hasWorkflow
  refine ⟨⟨hasWorkflow_of_follows he hu.hasWorkflow, ?_, ?_, fun u v hv => ?_⟩, ?_⟩
  · rw [hwf]
    exact hu.running
  · rw [hwf]
    exact hu.home
  · refine (hasStep_of_follows he v).mpr (hu.closed u v ?_)
    rwa [targets_of_successors (step_of_follows he (fun _ _ => rfl) u)] at hv
  · rw [hwf]
    show (e'.step t).binding = b
    rw [step_of_follows_self he (hu.closed s t ht)]
    exact hu.home

section Traversing

variable (hs : h.Sights sights) {b : Binding} (hu : Homeward w b e)
include hs hu

/-- A turn that is followed by another one leads to a step at home. -/
theorem turn_binds :
    (turn h w context).Ends e
      (after (fun _ _ => True) fun e' => Homeward w b e' ∧
        (e'.step (e'.workflow w).current).binding = b)
      (fun _ _ => True) := by
  refine turn_ends hs.quiet h.logs_nil hu.running hu.hasWorkflow (fun e₁ hw => ?_) context
  have hu₁ := hu.worked hw
  refine ⟨fun _ => trivial, fun _ _ => trivial, fun _ _ e' _ _ => ?_, fun _ _ _ _ e' _ _ => ?_,
    fun _ _ _ _ => trivial, fun _ _ _ _ _ => trivial, fun _ _ t ht _ e' he _ => ?_⟩
  · exact ((emit_told hs.quiet h.logs_nil w _).ends e').mono (fun _ _ _ => trivial) fun _ _ _ => trivial
  · exact ((emit_told hs.quiet h.logs_nil w _).ends e').mono (fun _ _ _ => trivial) fun _ _ _ => trivial
  · exact hu₁.moves (mem_targets_of_next? ht) he

/-- A traversal calls for its first step as that is bound, and for the others at home. -/
theorem process_sees {p : Sighting → Prop} (hp : ∀ x : Sighting, x.binding = b → p x)
    (hfirst : ∀ x, e.Expects w x → p x) :
    (process h w context).Ends e (fun _ => Sees sights p e) (fun _ => Sees sights p e) := by
  unfold process
  rw [ends_bind, ends_get]
  refine traverse_ends (P := fun e₁ => Sees sights p e e₁ ∧ Homeward w b e₁ ∧
    ∀ x, e₁.Expects w x → p x) (fun e₁ h₁ => ?_) (fun e₁ h₁ => h₁.1) _ ⟨refl e, hu, hfirst⟩
  obtain ⟨hsees, hu₁, hnext⟩ := h₁
  have hseen : ∀ e₂, Sees sights (e₁.Expects w) e₁ e₂ → Sees sights p e e₂ := fun e₂ h₂ =>
    IsTrans.trans _ _ _ hsees (h₂.mono hnext)
  refine (((turn_sees hs).ends e₁).and (turn_binds hs hu₁)).mono (fun progress e₂ h₂ => ?_)
    fun _ e₂ h₂ => hseen e₂ h₂.1
  cases progress with
  | stop state => exact hseen e₂ h₂.1
  | goOn =>
    obtain ⟨hu₂, hhome⟩ := h₂.2
    refine ⟨hseen e₂ h₂.1, hu₂, fun x hx => hp x ?_⟩
    rw [hx.2]
    exact hhome

end Traversing

section Advancing

variable (hs : h.Sights sights) (hw : e.HasWorkflow w)
include hs hw

/-- What `advance` does before the first turn leaves the steps alone, and the workflow on its step. -/
theorem enter_unseen :
    (enter h w).Ends e
      (fun go e₁ => Unseen sights e e₁ ∧ (go = true → (e₁.workflow w).state = .running ∧
        e₁.HasWorkflow w ∧ (e₁.workflow w).frame = (e.workflow w).frame ∧ e₁.steps = e.steps))
      (fun _ e₁ => Unseen sights e e₁) := by
  have hun : (enter h w).Always (Unseen sights) := sustains_unseen.enter fun kind _ => emit_unseen hs kind
  have hgoes : (enter h w).Ends e (fun go e₁ => go = true → (e₁.workflow w).state = .running ∧
      e₁.HasWorkflow w ∧ (e₁.workflow w).frame = (e.workflow w).frame ∧ e₁.steps = e.steps)
      (fun _ _ => True) := by
    have htold : ∀ kind, kind = .started ∨ kind = .running → ∀ t e₁,
        e₁.Alike (e.mapWorkflow w (·.resumed t)) →
          (emit h w kind).Ends e₁ (fun _ e₂ => true = true → (e₂.workflow w).state = .running ∧
            e₂.HasWorkflow w ∧ (e₂.workflow w).frame = (e.workflow w).frame ∧ e₂.steps = e.steps)
            (fun _ _ => True) := by
      intro kind hk t e₁ h₁
      refine (emit_core hs.quiet h.logs_nil hk e₁).mono (fun _ e₂ h₂ _ => ?_) fun _ _ _ => trivial
      have hc := h₂.1.trans h₁.core
      have hwf : e₂.workflow w = (e.workflow w).resumed t := by
        rw [workflow_of_core hc, workflow_mapWorkflow_self _ hw]
      refine ⟨by rw [hwf]; rfl, ?_, by rw [hwf]; rfl, congrArg Core.steps hc⟩
      exact (hasWorkflow_of_core hc w).mpr ((hasWorkflow_mapWorkflow ..).mpr hw)
    exact enter_ends (fun _ _ => trivial) (fun _ _ => nofun) (fun hr _ => ⟨hr, hw, rfl, rfl⟩)
      (fun _ e₁ h₁ _ => htold .started (.inl rfl) _ e₁ h₁)
      fun _ _ e₁ h₁ _ => htold .running (.inr rfl) _ e₁ h₁
  exact ((hun.ends e).and hgoes).mono (fun _ _ h₁ => h₁) fun _ _ h₁ => h₁.1

/-- An `advance` runs all its steps at home unless the workflow is astray. -/
theorem advance_sees_iff (hclosed : ∀ s, ∀ t ∈ e.targets s, e.HasStep t) :
    Sees sights (·.binding = (e.workflow w).home) e ((advance h w context).run e).2 ↔
      ¬Astray h w e := by
  rw [advance_eq_enter]
  rcases hr : (enter h w).run e with ⟨x | go, e₁⟩
  · -- It fails before the first turn.
    have hun := (enter_unseen hs hw).of_error hr
    rw [run_bind, hr]
    refine iff_of_true (sees_of_log hun) fun ha => ?_
    have hgo := ha.2.1
    rw [hr] at hgo
    contradiction
  obtain ⟨hun, hgo⟩ := (enter_unseen hs hw).of_ok hr
  rw [run_bind_of_ok hr]
  cases go with
  | false =>
    refine iff_of_true (sees_of_log hun) fun ha => ?_
    have hgo := ha.2.1
    rw [hr] at hgo
    exact absurd (Except.ok.inj hgo) nofun
  | true =>
    obtain ⟨hrun, hw₁, hframe, hsteps⟩ := hgo rfl
    have hcur := Workflow.current_of_frame hframe
    have hstep := step_of_steps hsteps
    rw [if_pos rfl]
    have hsight : e₁.sighting (e₁.workflow w).current = e.sighting (e.workflow w).current := by
      unfold sighting
      rw [hcur, hstep]
    constructor
    · rintro ⟨new, hnew, hhome⟩ ⟨hstray, -, hdue⟩
      -- A hook is called for the step as it is bound.
      have hcalls : Called sights (e₁.workflow w).current e₁ ((process h w context).run e₁).2 :=
        (process_calls hs (by rw [hcur, hstep]; exact hdue)).state
      unfold Called at hcalls
      rw [hnew, hun, hsight, List.prefix_append_right_inj] at hcalls
      exact hstray (hhome _ (hcalls.subset (List.mem_singleton_self _)))
    · intro hn
      have hu : Homeward w (e.workflow w).home e₁ := by
        refine ⟨hw₁, hrun, Workflow.home_of_frame hframe, fun s t ht => ?_⟩
        have htargets : e₁.targets s = e.targets s := targets_of_successors (by rw [hstep])
        exact (hasStep_of_steps hsteps t).mpr (hclosed s t (htargets ▸ ht))
      refine IsTrans.trans _ _ _ (sees_of_log hun) ((process_sees hs hu (fun _ hx => hx) ?_).state)
      rintro x ⟨hdue, rfl⟩
      rw [hcur, hstep] at hdue
      rw [hsight]
      exact Decidable.byContradiction fun hne => hn ⟨hne, by rw [hr], hdue⟩

end Advancing

end Engine

end ApprovalFlow
