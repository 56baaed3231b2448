import ApprovalFlow.Proofs.Operation
import ApprovalFlow.Proofs.HookCalls

/-!
# Where steps are bound when they run

A step is bound when a workflow is made that begins with it, when that workflow gets another id, and when a
workflow goes on to it; to be run it is not bound again. So a step that comes first or next in two workflows
is run by the one in the context of the other if that has bound it last, which it may until the step is
started. Steps are run at home exactly as long as no workflow is advanced whose step has been taken in that
way (`runs_at_home_iff`).
-/

namespace ApprovalFlow

open Act

variable {σ γ : Type}

def Operation.construct (key : String) (first : StepId) (owner : Option Actor) (id : Int)
    (context : Context) : Operation σ γ :=
  .other do let _ ← Engine.addWorkflow key first owner id context

/-- Making workflows, giving them ids, advancing and aborting them, resolving decisions and giving them to
other actors. -/
inductive Operation.Handles (e : Engine σ) : Operation σ γ → Prop
  | construct {first : StepId} (hs : e.HasStep first) (key : String) (owner : Option Actor) (id : Int)
      (context : Context) : Handles e (.construct key first owner id context)
  | assignId {w : WorkflowId} (hw : e.HasWorkflow w) (id : Int) : Handles e (.other (Engine.assignId w id))
  | advance {w : WorkflowId} (hw : e.HasWorkflow w) (context : γ) : Handles e (.advance w context)
  | abort {w : WorkflowId} (hw : e.HasWorkflow w) : Handles e (.abort w)
  | resolve (s : StepId) (o : Outcome) : Handles e (.resolve s o)
  | reassign (s : StepId) (actor : Option Actor) : Handles e (.reassign s actor)

/-- The workflow that an operation may bind steps to: a new one, one that gets another id, or one that goes
on. -/
inductive Operation.Of (e : Engine σ) : Operation σ γ → WorkflowId → Prop
  | construct (key : String) (first : StepId) (owner : Option Actor) (id : Int) (context : Context) :
      Of e (.construct key first owner id context) ⟨e.workflows.size⟩
  | assignId (w : WorkflowId) (id : Int) : Of e (.other (Engine.assignId w id)) w
  | advance (w : WorkflowId) (context : γ) : Of e (.advance w context) w

/-- The step has the same successors, is bound as before, and has not been taken back to before its start. -/
structure Step.Moored (a b : Step) : Prop where
  successors : b.successors = a.successors
  binding : b.binding = a.binding
  started : a.isStarted = true → b.isStarted = true

instance : Std.Refl Step.Moored := ⟨fun _ => ⟨rfl, rfl, id⟩⟩

theorem Step.Furthered.moored {a b : Step} (h : a.Furthered b) : a.Moored b where
  successors := successors_of_frame h.frame
  binding := binding_of_frame h.frame
  started hs := by
    unfold isStarted
    rw [h.started hs]
    exact hs

/-- A step that can be bound in the context `c₀` has no other one if it has started. -/
theorem Step.context_of_bindable {st : Step} {c₀ : ContextId}
    (hb : (st.isStarted && st.context.any (· != c₀)) = false) (hs : st.isStarted = true)
    (c : ContextId) (hc : st.context = some c) : c = c₀ := by
  rw [hs, hc] at hb
  simpa using hb

namespace Engine

variable {h : Hooks σ γ} {sights : σ → List Sighting} {w v : WorkflowId} {s : StepId} {context : γ}
  {e e' : Engine σ}

/-! ## How steps come to be bound -/

/-- Workflows other than `w` are as they were, and steps have been bound to `w` at most: none that was
started in another context. If `w` is on another step, it has bound that. -/
structure Conveyed (w : WorkflowId) (e e' : Engine σ) : Prop where
  contexts : e'.contexts.size = e.contexts.size
  size : e'.steps.size = e.steps.size
  targets : ∀ s, e'.targets s = e.targets s
  count : e'.workflows.size = e.workflows.size
  others : ∀ v, v ≠ w → e'.workflow v = e.workflow v
  home : (e'.workflow w).home = (e.workflow w).home
  first : (e'.workflow w).first = (e.workflow w).first
  created : (e'.workflow w).state = .created → (e.workflow w).state = .created
  started : ∀ s, (e.step s).isStarted = true → (e'.step s).isStarted = true
  bound : ∀ s, (e'.step s).binding = (e.step s).binding ∨
    (e'.step s).binding = (e.workflow w).home ∧ ((e.step s).isStarted = true →
      ∀ c, (e.step s).context = some c → c = (e.workflow w).context)
  current : (e'.workflow w).current = (e.workflow w).current ∨
    (∃ s, (e'.workflow w).current ∈ e.targets s) ∧ (e.HasStep (e'.workflow w).current →
      (e'.step (e'.workflow w).current).binding = (e.workflow w).home)

structure Anchored (w : WorkflowId) (e e' : Engine σ) : Prop where
  binding : ∀ s, (e'.step s).binding = (e.step s).binding
  current : (e'.workflow w).current = (e.workflow w).current

theorem conveyed_refl (e : Engine σ) : Conveyed w e e :=
  ⟨rfl, rfl, fun _ => rfl, rfl, fun _ _ => rfl, rfl, rfl, id, fun _ => id, fun _ => .inl rfl, .inl rfl⟩

theorem context_of_home {a b : Workflow} (h : b.home = a.home) : b.context = a.context :=
  Option.some.inj (congrArg Binding.context h)

theorem Conveyed.trans {e'' : Engine σ} (h : Conveyed w e e') (h' : Conveyed w e' e'') :
    Conveyed w e e'' where
  contexts := h'.contexts.trans h.contexts
  size := h'.size.trans h.size
  targets s := (h'.targets s).trans (h.targets s)
  count := h'.count.trans h.count
  others v hv := (h'.others v hv).trans (h.others v hv)
  home := h'.home.trans h.home
  first := h'.first.trans h.first
  created hc := h.created (h'.created hc)
  started s hs := h'.started s (h.started s hs)
  bound s := by
    rcases h'.bound s with hb' | ⟨hb', hfree'⟩
    · rw [hb']
      exact h.bound s
    · rw [hb', h.home]
      refine .inr ⟨rfl, fun hs c hc => ?_⟩
      rcases h.bound s with hb | ⟨-, hfree⟩
      · rw [← context_of_home h.home]
        exact hfree' (h.started s hs) c ((congrArg Binding.context hb).trans hc)
      · exact hfree hs c hc
  current := by
    rcases h'.current with hc' | ⟨⟨s, hs⟩, hb'⟩
    · rw [hc']
      refine h.current.imp_right fun ⟨hs, hb⟩ => ⟨hs, fun ht => ?_⟩
      rcases h'.bound (e'.workflow w).current with hb' | ⟨hb', -⟩
      · rw [hb', hb ht]
      · rw [hb', h.home]
    · refine .inr ⟨⟨s, h.targets s ▸ hs⟩, fun ht => ?_⟩
      rw [hb' ((hasStep_of_size h.size _).mpr ht), h.home]

instance : IsPreorder (Engine σ) (Conveyed w) where
  refl := conveyed_refl
  trans _ _ _ := Conveyed.trans

instance : IsPreorder (Engine σ) (Anchored w) where
  refl _ := ⟨fun _ => rfl, rfl⟩
  trans _ _ _ h h' := ⟨fun s => (h'.binding s).trans (h.binding s), h'.current.trans h.current⟩

/-- Where no step is bound and the workflow stays on its step, it is enough to look at the steps one by one
and at the workflow's frame. -/
theorem conveyed_of_moored (hm : ∀ s, (e.step s).Moored (e'.step s))
    (hcontexts : e'.contexts.size = e.contexts.size) (hsize : e'.steps.size = e.steps.size)
    (hcount : e'.workflows.size = e.workflows.size) (hothers : ∀ v, v ≠ w → e'.workflow v = e.workflow v)
    (hw : (e.workflow w).Carried (e'.workflow w)) : Conveyed w e e' where
  contexts := hcontexts
  size := hsize
  targets s := targets_of_successors (hm s).successors
  count := hcount
  others := hothers
  home := Workflow.home_of_frame hw.frame
  first := Workflow.first_of_frame hw.frame
  created := hw.created
  started s := (hm s).started
  bound s := .inl (hm s).binding
  current := .inl (Workflow.current_of_frame hw.frame)

theorem bears_conveyed : @Bears σ (Conveyed w) where
  off hs hw hc _ _ := by
    have hwf := workflow_of_workflows hw
    refine conveyed_of_moored (fun s => ?_) (by rw [hc]) (by rw [hs]) (by rw [hw]) (fun v _ => hwf v) ?_
    · rw [step_of_steps hs]
      exact refl _
    · rw [hwf]
      exact ⟨rfl, id⟩
  work s f e hf := conveyed_of_moored (fun t => rel_step_mapStep t f (Step.Furthered.moored hf)) rfl
    (Array.size_modify ..) rfl (fun _ _ => rfl) ⟨rfl, id⟩

/-- To bind a step that was not started in another context leaves the others bound as they were. -/
theorem binding_boundTo {t : StepId} (wf : Workflow)
    (hb : ((e.step t).isStarted && (e.step t).context.any (· != wf.context)) = false) (u : StepId) :
    ((e.mapStep t (·.boundTo wf)).step u).binding = (e.step u).binding ∨
      ((e.mapStep t (·.boundTo wf)).step u).binding = wf.home ∧ ((e.step u).isStarted = true →
        ∀ c, (e.step u).context = some c → c = wf.context) := by
  rw [step_mapStep]
  split
  · rename_i hut
    rw [hut.1]
    exact .inr ⟨rfl, Step.context_of_bindable hb⟩
  · exact .inl rfl

/-- To bind a step is allowed unless it was started in another context. -/
theorem conveyed_bind {t : StepId}
    (hb : ((e.step t).isStarted && (e.step t).context.any (· != (e.workflow w).context)) = false) :
    Conveyed w e (e.mapStep t (·.boundTo (e.workflow w))) :=
    { contexts := rfl
      size := Array.size_modify ..
      targets := fun u => targets_of_successors (step_mapStep_eq rfl u)
      count := rfl
      others := fun _ _ => rfl
      home := rfl
      first := rfl
      created := id
      started := fun _ => step_mapStep_keeps (p := (·.isStarted = true)) id
      bound := binding_boundTo _ hb
      current := .inl rfl }

/-- The workflow moves to a step that it has bound. -/
theorem conveyed_move {t : StepId} (ht : t ∈ e.targets s)
    (hb : e.HasStep t → (e.step t).binding = (e.workflow w).home) :
    Conveyed w e (e.mapWorkflow w (·.moved s t)) := by
  refine ⟨rfl, rfl, fun _ => rfl, Array.size_modify .., fun v hv => workflow_mapWorkflow_of_ne v _ hv,
    ?_, ?_, ?_, fun _ => id, fun _ => .inl rfl, ?_⟩ <;> rw [workflow_mapWorkflow] <;> split
  any_goals first | rfl | exact id | exact .inl rfl
  exact .inr ⟨⟨s, ht⟩, hb⟩

theorem sustains_conveyed : @Sustains σ (Conveyed w) w where
  toBears := bears_conveyed
  flow f e hf := by
    refine conveyed_of_moored (fun _ => refl _) rfl rfl (Array.size_modify ..)
      (fun v hv => workflow_mapWorkflow_of_ne v f hv) ?_
    rw [workflow_mapWorkflow]
    split
    · exact hf
    · exact ⟨rfl, id⟩
  go s t e ht _ hb := by
    refine (conveyed_bind hb).trans (conveyed_move (s := s) ?_ fun hstep => ?_)
    · rw [(conveyed_bind hb).targets]
      exact ht
    · rw [step_mapStep_self _ ((hasStep_mapStep ..).mp hstep)]
      rfl

theorem flows_anchored : @Flows σ (Anchored w) w where
  off hs hw _ _ _ := by
    refine ⟨fun s => ?_, ?_⟩
    · rw [step_of_steps hs]
    · rw [workflow_of_workflows hw]
  work s f e hf := ⟨fun t => (rel_step_mapStep t f (Step.Furthered.moored hf)).binding, rfl⟩
  flow f e hf :=
    ⟨fun _ => rfl, workflow_mapWorkflow_eq (Workflow.current_of_frame hf.frame) w⟩

section Hooked

variable (hs : h.Sights sights)

theorem Noted.conveyed {new : List Sighting} (hn : e.Noted sights new e') : Conveyed w e e' := by
  have hwf := workflow_of_core hn.core
  refine conveyed_of_moored (fun s => ?_) hn.contexts (congrArg (·.steps.size) hn.core)
    (congrArg (·.workflows.size) hn.core) (fun v _ => hwf v) ?_
  · rw [step_of_core hn.core]
    exact refl _
  · rw [hwf]
    exact ⟨rfl, id⟩

theorem anchored_of_core (hc : e'.core = e.core) : Anchored w e e' := by
  refine ⟨fun s => ?_, ?_⟩
  · rw [step_of_core hc]
  · rw [workflow_of_core hc]

include hs

theorem heed_conveyed : h.Heed (Conveyed w) w where
  starting s := (hs.starting s).mono Noted.conveyed
  execute s context := (hs.execute s context).mono Noted.conveyed
  present s context := (hs.present s context).mono Noted.conveyed
  emit kind _ := sustains_conveyed.emit (fun l event => (hs.observe l event).mono Noted.conveyed) kind

theorem advance_conveyed : (advance h w context).Always (Conveyed w) :=
  sustains_conveyed.advance (heed_conveyed hs)

theorem abort_conveyed : (abort h w).Always (Conveyed w) :=
  sustains_conveyed.abort (heed_conveyed hs).emit

theorem abort_anchored : (abort h w).Always (Anchored w) :=
  flows_anchored.abort fun kind _ =>
    flows_anchored.emit (fun l event => (hs.observe l event).mono fun hn => anchored_of_core hn.core) kind

/-- Once it has been advanced a workflow is no longer at its beginning. -/
theorem advance_begins (hw : e.HasWorkflow w) :
    (((advance h w context).run e).2.workflow w).state ≠ .created := by
  by_cases hst : (e.workflow w).state = .created
  case neg => exact fun hc => hst ((advance_conveyed hs e).created hc)
  refine Ends.state (P := fun e' => (e'.workflow w).state ≠ .created) (advance_enters (fun ht => ?_)
    (fun hwait => ?_) (fun hr => ?_) fun _ kind hk t e₁ h₁ => ?_)
  · rw [hst] at ht
    contradiction
  · rw [hst] at hwait
    contradiction
  · rw [hst] at hr
    contradiction
  · have hrun : (e₁.workflow w).state = .running := by
      rw [workflow_of_core h₁.core, workflow_mapWorkflow_self _ hw]
      rfl
    have hof : kind.isOfQueue = false := by rcases hk with rfl | rfl <;> rfl
    have hrest : (emit h w kind >>= fun _ => process h w context).Always (Conveyed w) :=
      ((heed_conveyed hs).emit kind hof).bind fun _ =>
        sustains_conveyed.process (heed_conveyed hs)
    have hnot : ∀ e₂, Conveyed w e₁ e₂ → (e₂.workflow w).state ≠ .created := by
      intro e₂ h₂ hc
      rw [h₂.created hc] at hrun
      contradiction
    exact (hrest.ends e₁).mono (fun _ => hnot) fun _ => hnot

end Hooked

theorem conveyed_resolve (s : StepId) (o : Outcome) : (resolve s o : Act σ Unit).Always (Conveyed w) :=
  bears_conveyed.resolve o

theorem anchored_resolve (s : StepId) (o : Outcome) : (resolve s o : Act σ Unit).Always (Anchored w) :=
  flows_anchored.resolve o

theorem conveyed_reassign (s : StepId) (actor : Option Actor) :
    (reassign s actor : Act σ Unit).Always fun e e' => Conveyed w e e' ∧ Anchored w e e' := by
  have hmoored : ∀ (e : Engine σ) t, (e.step t).Moored ((e.mapStep s ({ · with actor })).step t) :=
    fun e t => rel_step_mapStep t _ ⟨rfl, rfl, id⟩
  refine always_of_ends fun e => ?_
  simp only [reassign, ends_bind, ends_get, ends_failIf, ends_note, ends_updateStep]
  split
  · exact ⟨refl e, refl e⟩
  split
  · exact ⟨refl e, refl e⟩
  split
  · exact ⟨refl e, refl e⟩
  · refine ⟨conveyed_of_moored (hmoored e) rfl (Array.size_modify ..) rfl (fun _ _ => rfl) ⟨rfl, id⟩, ?_⟩
    exact ⟨fun t => (hmoored e t).binding, rfl⟩

/-! ## Along a run -/

/-- All successors are there, and each workflow has its first step, its current step and a context of its
own. A workflow that has not started is on its first step. -/
structure Housed (e : Engine σ) : Prop where
  closed : ∀ s, ∀ t ∈ e.targets s, e.HasStep t
  first : ∀ w, e.HasWorkflow w → e.HasStep (e.workflow w).first
  current : ∀ w, e.HasWorkflow w → e.HasStep (e.workflow w).current
  beginning : ∀ w, e.HasWorkflow w → (e.workflow w).state = .created →
    (e.workflow w).current = (e.workflow w).first
  context : ∀ w, e.HasWorkflow w → (e.workflow w).context.index < e.contexts.size
  distinct : ∀ v w, e.HasWorkflow v → e.HasWorkflow w →
    (e.workflow v).context = (e.workflow w).context → v = w

/-- The workflow `v` has taken the step on which the workflow `w` is, before that was started. -/
structure Taken (v w : WorkflowId) (e e' : Engine σ) : Prop where
  other : v ≠ w
  same : e'.workflow w = e.workflow w
  unstarted : (e.step (e.workflow w).current).isStarted = false
  bound : (e'.step (e.workflow w).current).binding = (e'.workflow v).home

/-- What an operation comes to for the bindings: what is astray was so before, or has been taken by the
workflow that the operation is about. -/
structure Binds (op : Operation σ γ) (e e' : Engine σ) : Prop where
  housed : Housed e'
  strays : ∀ w, e'.HasWorkflow w → Strayed w e' →
    e.HasWorkflow w ∧ Strayed w e ∨ ∃ v, op.Of e v ∧ Taken v w e e'

theorem Conveyed.hasWorkflow (hc : Conveyed v e e') (w : WorkflowId) :
    e'.HasWorkflow w ↔ e.HasWorkflow w := by
  unfold HasWorkflow
  rw [hc.count]

/-- A workflow that is astray was so before, if its step has not been taken by the one that binds steps in
the context `c₀`. -/
theorem strayed_or_taken {c₀ : ContextId} (hvw : v ≠ w) (hsame : e'.workflow w = e.workflow w)
    (hbound : (e'.step (e.workflow w).current).binding = (e.step (e.workflow w).current).binding ∨
      (e'.step (e.workflow w).current).binding = (e'.workflow v).home ∧
        ((e.step (e.workflow w).current).isStarted = true → ∀ c,
          (e.step (e.workflow w).current).context = some c → c = c₀))
    (hne : (e.workflow w).context ≠ c₀) (hstray : Strayed w e') : Strayed w e ∨ Taken v w e e' := by
  by_cases hat : Strayed w e
  · exact .inl hat
  have hhome : (e.step (e.workflow w).current).binding = (e.workflow w).home := not_not.mp hat
  unfold Strayed at hstray
  rw [hsame] at hstray
  rcases hbound with hb | ⟨hb, hfree⟩
  · exact absurd (hb.trans hhome) hstray
  · refine .inr ⟨hvw, hsame, ?_, hb⟩
    -- A step at home that was started in another context could not be bound.
    rw [← Bool.not_eq_true]
    exact fun hst => hne (hfree hst _ (congrArg Binding.context hhome))

section Operations

variable (hk : Housed e)
include hk

theorem Housed.change (htargets : ∀ s, e'.targets s = e.targets s)
    (hsize : e'.steps.size = e.steps.size) (hcount : e'.workflows.size = e.workflows.size)
    (hcontexts : e'.contexts.size = e.contexts.size)
    (hcontext : ∀ w, (e'.workflow w).context = (e.workflow w).context)
    (hfirst : ∀ w, (e'.workflow w).first = (e.workflow w).first)
    (hcurrent : ∀ w, e.HasWorkflow w → e.HasStep (e'.workflow w).current)
    (hbeginning : ∀ w, e.HasWorkflow w → (e'.workflow w).state = .created →
      (e'.workflow w).current = (e.workflow w).first) : Housed e' := by
  have hhas : ∀ w, e'.HasWorkflow w → e.HasWorkflow w := fun w hw => by
    unfold HasWorkflow at hw ⊢
    rwa [hcount] at hw
  have hstep := hasStep_of_size hsize
  refine ⟨fun s t ht => ?_, fun w hw => ?_, fun w hw => ?_, fun w hw hst => ?_, fun w hw => ?_,
    fun u w hu hw h => ?_⟩
  · exact (hstep t).mpr (hk.closed s t (htargets s ▸ ht))
  · rw [hfirst, hstep]
    exact hk.first w (hhas w hw)
  · rw [hstep]
    exact hcurrent w (hhas w hw)
  · rw [hfirst]
    exact hbeginning w (hhas w hw) hst
  · rw [hcontext, hcontexts]
    exact hk.context w (hhas w hw)
  · rw [hcontext, hcontext] at h
    exact hk.distinct u w (hhas u hu) (hhas w hw) h

/-- Driving a workflow keeps all in place if the workflow has begun or is on its step. -/
theorem Housed.conveyed (hc : Conveyed v e e')
    (hb : (e'.workflow v).state = .created → (e'.workflow v).current = (e.workflow v).current) :
    Housed e' := by
  refine hk.change hc.targets hc.size hc.count hc.contexts (fun w => ?context) (fun w => ?first)
    (fun w hw => ?current) fun w hw hst => ?beginning
  all_goals rcases eq_or_ne w v with rfl | hwv
  all_goals try rw [hc.others w hwv] at *
  case context.inl => exact context_of_home hc.home
  case first.inl => exact hc.first
  case current.inl =>
    rcases hc.current with hcur | ⟨⟨s, hs⟩, -⟩
    · rw [hcur]
      exact hk.current w hw
    · exact hk.closed s _ hs
  case beginning.inl =>
    rw [hb hst]
    exact hk.beginning w hw (hc.created hst)
  case current.inr => exact hk.current w hw
  case beginning.inr => exact hk.beginning w hw hst

/-- Where nothing is bound and no workflow goes on, no step is taken. -/
theorem Housed.binds_anchored {op : Operation σ γ} (hc : Conveyed v e e') (ha : Anchored v e e') :
    Binds op e e' := by
  refine ⟨hk.conveyed hc fun _ => ha.current, fun w hw hstray => .inl ⟨(hc.hasWorkflow w).mp hw, ?_⟩⟩
  unfold Strayed at hstray ⊢
  rw [ha.binding] at hstray
  by_cases hwv : w = v
  · subst hwv
    rwa [ha.current, hc.home] at hstray
  · rwa [hc.others w hwv] at hstray

theorem Housed.binds_advance (hs : h.Sights sights) (hv : e.HasWorkflow v) (context : γ) :
    Binds (.advance v context : Operation σ γ) e ((advance h v context).run e).2 := by
  obtain ⟨e', he'⟩ : ∃ e', e' = ((advance h v context).run e).2 := ⟨_, rfl⟩
  have hc : Conveyed v e e' := he' ▸ advance_conveyed hs e
  have hbegun : (e'.workflow v).state ≠ .created := he' ▸ advance_begins hs hv
  rw [← he']
  have hk' : Housed e' := hk.conveyed hc fun hst => absurd hst hbegun
  refine ⟨hk', fun w hw hstray => ?_⟩
  rw [hc.hasWorkflow] at hw
  by_cases hvw : v = w
  · subst hvw
    refine .inl ⟨hw, fun hhome => hstray ?_⟩
    -- Its own step is where it was, or has just been bound to it.
    rw [hc.home]
    rcases hc.current with hcur | ⟨⟨s, hs⟩, hb⟩
    · rw [hcur]
      rcases hc.bound (e.workflow v).current with hb | ⟨hb, -⟩
      · rw [hb, hhome]
      · exact hb
    · exact hb (hk.closed s _ hs)
  · have hbound := hc.bound (e.workflow w).current
    rw [← hc.home] at hbound
    exact (strayed_or_taken hvw (hc.others w fun h => hvw h.symm) hbound
      (fun h => hvw (hk.distinct v w hv hw h.symm)) hstray).imp (⟨hw, ·⟩) (⟨v, .advance v context, ·⟩)

/-- A workflow in a context of its own is added. -/
theorem Housed.built {first : StepId} {wf : Workflow} (hs : e.HasStep first) (hfirst : wf.first = first)
    (hcur : wf.current = first) (hctx : wf.context = ⟨e.contexts.size⟩)
    (hpush : e'.workflows = e.workflows.push wf) (htargets : ∀ s, e'.targets s = e.targets s)
    (hsize : e'.steps.size = e.steps.size) (hcontexts : e'.contexts.size = e.contexts.size + 1) :
    Housed e' := by
  have hstep := hasStep_of_size hsize
  have hhas := hasWorkflow_of_push hpush
  have hold := fun {w} (hw : e.HasWorkflow w) => workflow_of_push_old hpush hw
  have hnew := workflow_of_push_new hpush
  -- The new context is at a place where there was none.
  have hne : ∀ w, e.HasWorkflow w → (e.workflow w).context ≠ wf.context := by
    intro w hw h
    have hlt := hk.context w hw
    rw [h, hctx] at hlt
    exact Nat.lt_irrefl _ hlt
  refine ⟨fun s t ht => (hstep t).mpr (hk.closed s t (htargets s ▸ ht)), fun w hw => ?first,
    fun w hw => ?current, fun w hw hst => ?beginning, fun w hw => ?context, fun u w hu hw h => ?distinct⟩
  case first =>
    rw [hstep]
    rcases (hhas w).mp hw with hw | rfl
    · rw [hold hw]
      exact hk.first w hw
    · rwa [hnew, hfirst]
  case current =>
    rw [hstep]
    rcases (hhas w).mp hw with hw | rfl
    · rw [hold hw]
      exact hk.current w hw
    · rwa [hnew, hcur]
  case beginning =>
    rcases (hhas w).mp hw with hw | rfl
    · rw [hold hw] at hst ⊢
      exact hk.beginning w hw hst
    · rw [hnew, hcur, hfirst]
  case context =>
    rw [hcontexts]
    rcases (hhas w).mp hw with hw | rfl
    · rw [hold hw]
      exact Nat.lt_succ_of_lt (hk.context w hw)
    · rw [hnew, hctx]
      exact Nat.lt_succ_self _
  case distinct =>
    rcases (hhas u).mp hu with hu | rfl <;> rcases (hhas w).mp hw with hw | rfl
    · rw [hold hu, hold hw] at h
      exact hk.distinct u w hu hw h
    · rw [hold hu, hnew] at h
      exact absurd h (hne u hu)
    · rw [hold hw, hnew] at h
      exact absurd h.symm (hne w hw)
    · rfl

/-- A new workflow is at home on its first step. -/
theorem Housed.binds_construct {first : StepId} (hs : e.HasStep first) (key : String)
    (owner : Option Actor) (id : Int) (context : Context) :
    Binds (.construct key first owner id context : Operation σ γ) e
      ((addWorkflow key first owner id context).run e).2 := by
  refine Ends.state ((addWorkflow_ends key first owner id context e).mono ?_ ?_)
  case refine_2 =>
    rintro _ _ ⟨-, rfl⟩
    exact ⟨hk, fun w hw hat => .inl ⟨hw, hat⟩⟩
  rintro _ e' ⟨hb, -, wf, hwf, he'⟩
  have hpush : e'.workflows = e.workflows.push wf := by rw [he']
  have hstep : ∀ t, e'.step t = (e.mapStep first (·.boundTo wf)).step t := fun t => by rw [he']; rfl
  have hctx : wf.context = ⟨e.contexts.size⟩ := by rw [hwf]
  refine ⟨hk.built hs (by rw [hwf]) (by rw [hwf]) hctx hpush (fun s => targets_of_successors ?_)
    (by rw [he']; exact Array.size_modify ..) (by rw [he']; exact Array.size_push ..),
    fun w hw hstray => ?_⟩
  · rw [hstep]
    exact step_mapStep_eq rfl s
  have hnew := workflow_of_push_new hpush
  rcases (hasWorkflow_of_push hpush w).mp hw with hw | rfl
  · have hne : (⟨e.workflows.size⟩ : WorkflowId) ≠ w := by
      rintro rfl
      exact Nat.lt_irrefl _ hw
    have hbound := binding_boundTo wf (hctx ▸ hb) (e.workflow w).current
    rw [← hstep, hctx] at hbound
    refine (strayed_or_taken hne (workflow_of_push_old hpush hw) (hnew ▸ hbound) (fun h => ?_) hstray).imp
      (⟨hw, ·⟩) (⟨_, .construct .., ·⟩)
    have hlt := hk.context w hw
    rw [h] at hlt
    exact Nat.lt_irrefl _ hlt
  · refine absurd ?_ hstray
    rw [hnew, hstep, hwf, step_mapStep_self _ hs]
    rfl

/-- To give a workflow another id moves nothing. -/
theorem Housed.renamed (id : Int) : Housed (e.mapWorkflow v (·.renamed id)) := by
  have hcur := workflow_mapWorkflow_eq (e := e) (w := v) (f := (·.renamed id)) (g := Workflow.current) rfl
  have hst := workflow_mapWorkflow_eq (e := e) (w := v) (f := (·.renamed id)) (g := Workflow.state) rfl
  refine hk.change (fun _ => rfl) rfl (Array.size_modify ..) rfl (workflow_mapWorkflow_eq rfl)
    (workflow_mapWorkflow_eq rfl) (fun w hw => ?_) fun w hw hcreated => ?_ <;> rw [hcur]
  · exact hk.current w hw
  · exact hk.beginning w hw ((hst w).symm.trans hcreated)

/-- To bind a step moves nothing. -/
theorem Housed.bound (s : StepId) (wf : Workflow) : Housed (e.mapStep s (·.boundTo wf)) :=
  hk.change (fun t => targets_of_successors (step_mapStep_eq rfl t)) (Array.size_modify ..) rfl rfl
    (fun _ => rfl) (fun _ => rfl) hk.current hk.beginning

/-- A workflow that gets another id is at home on its first step if it was so before. -/
theorem Housed.binds_assignId (hv : e.HasWorkflow v) (id : Int) :
    Binds (.other (assignId v id) : Operation σ γ) e ((assignId v id : Act σ Unit).run e).2 := by
  have hself : (e.mapWorkflow v (·.renamed id)).workflow v = (e.workflow v).renamed id :=
    workflow_mapWorkflow_self _ hv
  have hrest : ∀ w, w ≠ v → (e.mapWorkflow v (·.renamed id)).workflow w = e.workflow w := fun w hw =>
    workflow_mapWorkflow_of_ne w _ hw
  have hbegin : (e.workflow v).state = .created → (e.workflow v).current = (e.workflow v).first :=
    hk.beginning v hv
  have hbound := step_mapStep_self (e := e.mapWorkflow v (·.renamed id))
    (·.boundTo ((e.workflow v).renamed id)) (hk.first v hv)
  refine Ends.state ((assignId_ends v id e).mono ?_ ?_)
  · rintro _ e' ⟨hst, hb, rfl⟩
    refine ⟨(hk.renamed id).bound _ _, fun w hw hstray => ?_⟩
    rcases eq_or_ne w v with rfl | hwv
    · refine absurd ?_ hstray
      rw [workflow_mapStep, hself]
      show (Engine.step _ (e.workflow w).current).binding = _
      rw [hbegin hst, hbound]
      rfl
    have hw' : e.HasWorkflow w := (hasWorkflow_mapWorkflow ..).mp hw
    refine (strayed_or_taken hwv.symm ?_ ?_ (fun h => hwv (hk.distinct w v hw' hv h)) hstray).imp
      (⟨hw', ·⟩) (⟨v, .assignId v id, ·⟩)
    · exact hrest w hwv
    · rw [workflow_mapStep, hself]
      exact binding_boundTo (e := e.mapWorkflow v (·.renamed id)) ((e.workflow v).renamed id) hb _
  · rintro _ e' (rfl | ⟨hst, hb, rfl⟩)
    · exact ⟨hk, fun w hw hat => .inl ⟨hw, hat⟩⟩
    refine ⟨hk.renamed id, fun w hw hstray => .inl ⟨(hasWorkflow_mapWorkflow ..).mp hw, ?_⟩⟩
    rcases eq_or_ne w v with rfl | hwv
    · -- A first step that was started for another workflow was not at home before.
      intro hhome
      rw [hbegin hst] at hhome
      have hctx : (e.step (e.workflow w).first).context = some (e.workflow w).context :=
        congrArg Binding.context hhome
      simp [hctx] at hb
    · unfold Strayed at hstray
      rwa [hrest w hwv] at hstray

theorem Housed.binds (hs : h.Sights sights) {op : Operation σ γ} (hop : op.Handles e) :
    Binds op e (next h e op) := by
  cases hop with
  | @construct first hf key owner id context =>
    have hnext : next h e (.construct key first owner id context) =
        ((addWorkflow key first owner id context).run e).2 := state_bind_pure _ _ e
    rw [hnext]
    exact hk.binds_construct hf key owner id context
  | assignId hw id => exact hk.binds_assignId hw id
  | advance hw context =>
    rw [next_advance]
    exact hk.binds_advance hs hw context
  | @abort w hw => exact hk.binds_anchored (abort_conveyed hs e) (abort_anchored hs (w := w) e)
  | resolve s o => exact hk.binds_anchored (v := ⟨0⟩) (conveyed_resolve s o e) (anchored_resolve s o e)
  | reassign s actor =>
    have hr := conveyed_reassign (w := ⟨0⟩) s actor e
    exact hk.binds_anchored hr.1 hr.2

end Operations

/-- In the course of a run every `advance` has run all its steps at home. -/
def RunsAtHome (h : Hooks σ γ) (sights : σ → List Sighting) (e : Engine σ) (ops : List (Operation σ γ)) :
    Prop :=
  ∀ past w context, past ++ [.advance w context] <+: ops →
    Sees sights (·.binding = ((runs h e past).workflow w).home) (runs h e past)
      (runs h e (past ++ [.advance w context]))

/-- In the course of a run a workflow has been advanced that was astray. -/
def Misled (h : Hooks σ γ) (e : Engine σ) (ops : List (Operation σ γ)) : Prop :=
  ∃ past w context, past ++ [.advance w context] <+: ops ∧ Astray h w (runs h e past)

/-- Steps are run at home exactly as long as no workflow is advanced that is astray. A workflow strays from
its step only when another workflow takes that, and only before it is started. -/
theorem runs_at_home_iff (hs : h.Sights sights) (hnone : ∀ w, ¬e.HasWorkflow w)
    (hclosed : ∀ s, ∀ t ∈ e.targets s, e.HasStep t) {ops : List (Operation σ γ)}
    (hops : Along h Operation.Handles e ops) :
    (RunsAtHome h sights e ops ↔ ¬Misled h e ops) ∧
    ∀ past op w, past ++ [op] <+: ops → (runs h e (past ++ [op])).HasWorkflow w →
      Strayed w (runs h e (past ++ [op])) →
      (runs h e past).HasWorkflow w ∧ Strayed w (runs h e past) ∨
        ∃ v, op.Of (runs h e past) v ∧ Taken v w (runs h e past) (runs h e (past ++ [op])) := by
  have hbegin : Housed e := ⟨hclosed, fun w hw => absurd hw (hnone w), fun w hw => absurd hw (hnone w),
    fun w hw => absurd hw (hnone w), fun w hw => absurd hw (hnone w), fun w _ hw => absurd hw (hnone w)⟩
  have hreach : ∀ past op, past ++ [op] <+: ops →
      Housed (runs h e past) ∧ op.Handles (runs h e past) := by
    rintro past op ⟨rest, rfl⟩
    obtain ⟨hpast, hop⟩ := (along_concat e past op).mp ((along_append e _ rest).mp hops).1
    exact ⟨runs_invariant (fun e op hk hop => (hk.binds hs hop).housed) hbegin hpast, hop⟩
  refine ⟨?_, fun past op w hp hw hstray => ?_⟩
  · -- It depends on each `advance` by itself.
    have heach : ∀ past w context, past ++ [.advance w context] <+: ops →
        (Sees sights (·.binding = ((runs h e past).workflow w).home) (runs h e past)
          (runs h e (past ++ [.advance w context])) ↔ ¬Astray h w (runs h e past)) := by
      intro past w context hp
      obtain ⟨hk, hop⟩ := hreach past _ hp
      cases hop with
      | advance hw _ =>
        rw [runs_concat, next_advance]
        exact advance_sees_iff hs hw hk.closed
    constructor
    · rintro hhome ⟨past, w, context, hp, hastray⟩
      exact (heach past w context hp).mp (hhome past w context hp) hastray
    · intro hn past w context hp
      exact (heach past w context hp).mpr fun hastray => hn ⟨past, w, context, hp, hastray⟩
  · obtain ⟨hk, hop⟩ := hreach past op hp
    rw [runs_concat] at hw hstray ⊢
    exact (hk.binds hs hop).strays w hw hstray

/-! ## One task for two workflows -/

def sightingHooks : Hooks (List Sighting) Unit where
  starting s := do
    let e ← get
    updateHost (· ++ [e.sighting s])
  execute s _ := do
    let e ← get
    updateHost (· ++ [e.sighting s])
    return .complete
  present s _ := do
    let e ← get
    updateHost (· ++ [e.sighting s])
  observe _ _ := pure ()
  room := 0

theorem sights_sightingHooks : sightingHooks.Sights id where
  starting _ _ := ⟨rfl, rfl, rfl⟩
  execute _ _ _ := ⟨rfl, rfl, rfl⟩
  present _ _ _ := ⟨rfl, rfl, rfl⟩
  observe _ _ _ := ⟨rfl, rfl, (List.append_nil _).symm⟩

def sharedTask : Engine (List Sighting) where
  steps := #[Step.task "Task" "shared" none]
  clock := .counter 1 1
  host := []

/-- Two workflows are made that begin with the task, and the one at the place `i` is advanced. -/
def sharing (i : Nat) : List (Operation (List Sighting) Unit) :=
  [.construct "early" ⟨0⟩ none 1 [], .construct "late" ⟨0⟩ none 2 [], .advance ⟨i⟩ ()]

/-- Nothing follows the task. -/
theorem targets_sharedTask (s : StepId) : sharedTask.targets s = [] := by
  by_cases hs : sharedTask.HasStep s
  · have hs' : s.index < 1 := hs
    have hzero : s = ⟨0⟩ := by
      cases s
      simpa using hs'
    rw [hzero]
    decide +kernel
  · exact targets_of_not_hasStep hs

theorem handles_sharing {i : Nat} (hi : i < 2) :
    Along sightingHooks Operation.Handles sharedTask (sharing i) := by
  refine ⟨.construct (by decide) .., .construct (by decide +kernel) .., .advance ?_ (), trivial⟩
  have hsize : (runs sightingHooks sharedTask ((sharing 0).take 2)).workflows.size = 2 := by
    decide +kernel
  exact Nat.lt_of_lt_of_eq hi hsize.symm

theorem advance_in_sharing {i : Nat} {past : List (Operation (List Sighting) Unit)} {w : WorkflowId}
    {c : Unit} (hp : past ++ [.advance w c] <+: sharing i) : past = (sharing i).take 2 ∧ w = ⟨i⟩ := by
  unfold sharing Operation.construct at *
  rcases past with _ | ⟨a, _ | ⟨b, _ | ⟨d, past⟩⟩⟩
  · simp at hp
  · simp at hp
  · simp at hp
    obtain ⟨rfl, rfl, rfl⟩ := hp
    exact ⟨rfl, rfl⟩
  · simp at hp

/-- The workflow that was made last runs the task at home. -/
theorem shared_at_home :
    Along sightingHooks Operation.Handles sharedTask (sharing 1) ∧
    RunsAtHome sightingHooks id sharedTask (sharing 1) := by
  have hhome : ((runs sightingHooks sharedTask ((sharing 1).take 2)).step ⟨0⟩).binding =
      ((runs sightingHooks sharedTask ((sharing 1).take 2)).workflow ⟨1⟩).home := by decide +kernel
  have hcur : ((runs sightingHooks sharedTask ((sharing 1).take 2)).workflow ⟨1⟩).current = ⟨0⟩ := by
    decide +kernel
  have hops := handles_sharing (i := 1) (by decide)
  refine ⟨hops, (runs_at_home_iff sights_sightingHooks (fun w hw => absurd hw (Nat.not_lt_zero _))
    ?_ hops).1.mpr ?_⟩
  · intro s t ht
    rw [targets_sharedTask] at ht
    exact absurd ht List.not_mem_nil
  · rintro ⟨past, w, c, hp, hstray, -⟩
    obtain ⟨rfl, rfl⟩ := advance_in_sharing hp
    unfold Strayed at hstray
    rw [hcur] at hstray
    exact hstray hhome

/-- The workflow that was made first runs the task in the context of the other one. -/
theorem shared_astray :
    ¬∀ ops : List (Operation (List Sighting) Unit),
      Along sightingHooks Operation.Handles sharedTask ops →
        RunsAtHome sightingHooks id sharedTask ops := by
  intro hall
  obtain ⟨new, hnew, hhome⟩ := hall (sharing 0) (handles_sharing (by decide)) ((sharing 0).take 2) ⟨0⟩ ()
    List.prefix_rfl
  have hafter : (runs sightingHooks sharedTask (sharing 0)).host =
      [⟨⟨0⟩, ⟨some 2, some ⟨1⟩⟩⟩, ⟨⟨0⟩, ⟨some 2, some ⟨1⟩⟩⟩] := by decide +kernel
  have hbefore : (runs sightingHooks sharedTask ((sharing 0).take 2)).host = [] := by decide +kernel
  have hown : ((runs sightingHooks sharedTask ((sharing 0).take 2)).workflow ⟨0⟩).home =
      ⟨some 1, some ⟨0⟩⟩ := by decide +kernel
  have hlog : [⟨⟨0⟩, ⟨some 2, some ⟨1⟩⟩⟩, ⟨⟨0⟩, ⟨some 2, some ⟨1⟩⟩⟩] = new := by
    rw [← hafter]
    exact hnew.trans (by rw [hbefore]; rfl)
  have hfirst := hhome ⟨⟨0⟩, ⟨some 2, some ⟨1⟩⟩⟩ (hlog ▸ List.mem_cons_self)
  rw [hown] at hfirst
  exact absurd hfirst (by decide)

end Engine

end ApprovalFlow
