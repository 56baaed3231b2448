import ApprovalFlow.Proofs.ReentrantHooks

/-!
# How it stands with a workflow

While no traversal of the workflow is under way it is one of three things (`Settled`): it is not over; it is
over and nothing has happened to it since (`Final`); or it is over and has left another step behind in spite
of that, which takes a hook that has returned from under which the workflow had ended.
-/

namespace ApprovalFlow

/-- What has been seen of the workflow `w` is so still: its record, when steps have started, and which of
them have been executed. -/
structure Glimpse.Agrees {σ : Type} (g : Glimpse) (w : WorkflowId) (e : Engine (Watched σ)) : Prop where
  workflow : e.workflow w = g.workflow
  started : ∀ s : StepId, (e.step s).startTime = (g.steps.getD s.index default).startTime
  executed : e.host.executed = g.executed

namespace Engine

open Act

variable {σ γ α β : Type} {w : WorkflowId} {s : StepId} {e e' e'' : Engine (Watched σ)}

/-- Since the workflow was seen to be over, nothing has happened to it. -/
def Final (w : WorkflowId) (e : Engine (Watched σ)) : Prop :=
  ∀ g ∈ e.host.glimpses, g.workflow.state.isTerminal = true → g.Agrees w e

structure Grounded (w : WorkflowId) (e : Engine (Watched σ)) : Prop where
  hasWorkflow : e.HasWorkflow w
  current : e.HasStep (e.workflow w).current
  closed : ∀ s, ∀ t ∈ e.targets s, e.HasStep t

structure Clean (w : WorkflowId) (e : Engine (Watched σ)) : Prop where
  unspoiled : e.host.spoiled = false
  live : (e.workflow w).state.isTerminal = false
  unseen : ∀ g ∈ e.host.glimpses, g.workflow.state.isTerminal = false

structure Rests (w : WorkflowId) (e : Engine (Watched σ)) : Prop where
  unspoiled : e.host.spoiled = false
  terminal : (e.workflow w).state.isTerminal = true
  final : Final w e

structure Broken (w : WorkflowId) (e : Engine (Watched σ)) : Prop where
  spoiled : e.host.spoiled = true
  terminal : (e.workflow w).state.isTerminal = true
  moved : ∃ g ∈ e.host.glimpses, g.workflow.state.isTerminal = true ∧
    g.workflow.history.length < (e.workflow w).history.length

/-- The workflow has just ended under the hook of the step `s`, which is going to be left behind. -/
structure Spoilt (w : WorkflowId) (s : StepId) (e : Engine (Watched σ)) : Prop where
  spoiled : e.host.spoiled = true
  terminal : (e.workflow w).state.isTerminal = true
  done : (e.step s).isCompleted = true
  seen : ∃ g ∈ e.host.glimpses, g.workflow.state.isTerminal = true ∧
    g.workflow.history.length ≤ (e.workflow w).history.length

/-- How it stands with the workflow while no traversal is under way. -/
structure Settled (w : WorkflowId) (e : Engine (Watched σ)) : Prop where
  grounded : Grounded w e
  phase : Clean w e ∨ Rests w e ∨ Broken w e

structure Halts (w : WorkflowId) (e e' : Engine (Watched σ)) : Prop where
  settled : Settled w e'
  onward : Onward w e e'

def Keeps (w : WorkflowId) (e e' : Engine (Watched σ)) : Prop := Settled w e → Halts w e e'

theorem Settled.final_iff (h : Settled w e) : Final w e ↔ e.host.spoiled = false := by
  rcases h.phase with hc | hr | hb
  · refine iff_of_true (fun g hg hover => ?_) hc.unspoiled
    rw [hc.unseen g hg] at hover
    contradiction
  · exact iff_of_true hr.final hr.unspoiled
  · refine iff_of_false (fun hf => ?_) (by rw [hb.spoiled]; exact nofun)
    -- The history would be longer than itself.
    obtain ⟨g, hg, hover, hlt⟩ := hb.moved
    rw [(hf g hg hover).workflow] at hlt
    exact absurd hlt (Nat.lt_irrefl _)

theorem Settled.of_final (hg : Grounded w e) (hf : Final w e) (hu : e.host.spoiled = false) :
    Settled w e := by
  refine ⟨hg, ?_⟩
  cases hlive : (e.workflow w).state.isTerminal
  case true => exact .inr (.inl ⟨hu, hlive, hf⟩)
  case false =>
    refine .inl ⟨hu, hlive, fun g hg => ?_⟩
    rw [← Bool.not_eq_true]
    intro hover
    rw [(hf g hg hover).workflow, hover] at hlive
    contradiction

theorem Settled.clean (h : Settled w e) (hlive : (e.workflow w).state.isTerminal = false) :
    Clean w e := by
  rcases h.phase with hc | hr | hb
  · exact hc
  · rw [hr.terminal] at hlive
    contradiction
  · rw [hb.terminal] at hlive
    contradiction

instance : IsPreorder (Engine (Watched σ)) (Keeps w) where
  refl e h := ⟨h, onward_refl e⟩
  trans e₁ e₂ e₃ h h' hs := by
    obtain ⟨hs₂, ho⟩ := h hs
    obtain ⟨hs₃, ho'⟩ := h' hs₂
    exact ⟨hs₃, ho.trans ho'⟩

/-! ## Where the workflow stays as it is -/

section Same

variable (hl : Lasting w e e') (hw : e'.workflow w = e.workflow w)
include hl hw

theorem Grounded.same (hg : Grounded w e) : Grounded w e' where
  hasWorkflow := hl.hasWorkflow hg.hasWorkflow
  current := by
    rw [hw]
    exact hl.hasStep _ hg.current
  closed s t ht := hl.hasStep t (hg.closed s t (hl.targets s ▸ ht))

variable (hh : e'.host = e.host)
include hh

omit hl in
theorem Clean.same (hc : Clean w e) : Clean w e' := by
  refine ⟨?_, ?_, ?_⟩
  · rw [hh]; exact hc.unspoiled
  · rw [hw]; exact hc.live
  · rw [hh]; exact hc.unseen

omit hl in
theorem Broken.same (hb : Broken w e) : Broken w e' := by
  refine ⟨?_, ?_, ?_⟩
  · rw [hh]; exact hb.spoiled
  · rw [hw]; exact hb.terminal
  · rw [hh, hw]; exact hb.moved

theorem Spoilt.same (hs : Spoilt w s e) : Spoilt w s e' := by
  refine ⟨?_, ?_, hl.done s hs.done, ?_⟩
  · rw [hh]; exact hs.spoiled
  · rw [hw]; exact hs.terminal
  · rw [hh, hw]; exact hs.seen

omit hl in
theorem Rests.same (hr : Rests w e) (hs : ∀ s, (e'.step s).startTime = (e.step s).startTime) :
    Rests w e' := by
  refine ⟨?_, ?_, ?_⟩
  · rw [hh]; exact hr.unspoiled
  · rw [hw]; exact hr.terminal
  · intro g hg hover
    rw [hh] at hg
    have ha := hr.final g hg hover
    exact ⟨hw.trans ha.workflow, fun s => (hs s).trans (ha.started s), by rw [hh]; exact ha.executed⟩

end Same

section Looks

variable (h : Looks w e e')
include h

theorem Looks.mem {g : Glimpse} (hg : g ∈ e.host.glimpses) : g ∈ e'.host.glimpses := by
  obtain ⟨seen, hs, -⟩ := h.glimpses
  rw [hs]
  exact List.mem_append_left _ hg

theorem Looks.old_or_new {g : Glimpse} (hg : g ∈ e'.host.glimpses) :
    g ∈ e.host.glimpses ∨ g = e.glimpse w := by
  obtain ⟨seen, hs, hseen⟩ := h.glimpses
  rw [hs] at hg
  exact (List.mem_append.mp hg).imp_right (hseen g)

theorem Looks.clean (hc : Clean w e) : Clean w e' := by
  refine ⟨h.spoiled.trans hc.unspoiled, by rw [h.workflow]; exact hc.live, fun g hg => ?_⟩
  rcases h.old_or_new hg with hg | rfl
  · exact hc.unseen g hg
  · exact hc.live

theorem Looks.broken (hb : Broken w e) : Broken w e' := by
  obtain ⟨g, hg, hover, hlt⟩ := hb.moved
  refine ⟨h.spoiled.trans hb.spoiled, by rw [h.workflow]; exact hb.terminal, g, h.mem hg, hover, ?_⟩
  rw [h.workflow]
  exact hlt

theorem Looks.spoilt (hs : Spoilt w s e) : Spoilt w s e' := by
  obtain ⟨g, hg, hover, hle⟩ := hs.seen
  refine ⟨h.spoiled.trans hs.spoiled, by rw [h.workflow]; exact hs.terminal, by rw [h.step]; exact hs.done,
    g, h.mem hg, hover, ?_⟩
  rw [h.workflow]
  exact hle

theorem Looks.rests (hr : Rests w e) : Rests w e' := by
  refine ⟨h.spoiled.trans hr.unspoiled, by rw [h.workflow]; exact hr.terminal, fun g hg hover => ?_⟩
  rcases h.old_or_new hg with hg | rfl
  · have ha := hr.final g hg hover
    exact ⟨(h.workflow w).trans ha.workflow, fun s => (by rw [h.step]; exact ha.started s),
      h.executed.trans ha.executed⟩
  · exact ⟨h.workflow w, fun s => by rw [h.step]; rfl, h.executed⟩

theorem Looks.keeps : Keeps w e e' := by
  intro hs
  have ho := h.onward
  refine ⟨⟨hs.grounded.same ho.toLasting (h.workflow w), ?_⟩, ho⟩
  rcases hs.phase with hc | hr | hb
  · exact .inl (h.clean hc)
  · exact .inr (.inl (h.rests hr))
  · exact .inr (.inr (h.broken hb))

end Looks

/-- A step is changed without being started, undone or given other successors. -/
theorem keeps_mapStep (f : Step → Step) (hsucc : (f (e.step s)).successors = (e.step s).successors)
    (hdone : (e.step s).isCompleted = true → (f (e.step s)).isCompleted = true)
    (hstart : (f (e.step s)).startTime = (e.step s).startTime) (ha : e'.Alike (e.mapStep s f)) :
    Keeps w e e' := by
  intro hs
  have hl : Lasting w e e' := lasting_mapStep f hsucc hdone ha
  have hw : e'.workflow w = e.workflow w := workflow_of_core ha.core w
  have hh : e'.host = e.host := ha.host
  refine ⟨⟨hs.grounded.same hl hw, ?_⟩, hl.onward hw⟩
  rcases hs.phase with hc | hr | hb
  · exact .inl (hc.same hw hh)
  · -- The end stays final because no step is started.
    refine .inr (.inl (hr.same hw hh fun t => ?_))
    rw [step_of_core ha.core]
    exact step_mapStep_eq hstart t
  · exact .inr (.inr (hb.same hw hh))

theorem keeps_given {o : Outcome} {t : Instant} (hc : (e.step s).isCompleted = false)
    (ha : e'.Alike (e.mapStep s (·.given o t))) : Keeps w e e' := by
  refine keeps_mapStep (·.given o t) ?_ (fun h => by rw [hc] at h; contradiction) ?_ ha
  all_goals
    unfold Step.given
    split <;> rfl

theorem keeps_setOutcome (s : StepId) (o : Outcome) :
    (setOutcome s o : Act (Watched σ) Unit).Always (Keeps w) := by
  refine always_of_ends fun e => (setOutcome_ends s o e).mono ?_ ?_
  · rintro _ e' ⟨hc, t, ha⟩
    exact keeps_given hc ha
  · rintro _ e' ⟨rfl, -⟩
    exact refl _

theorem keeps_resolve (s : StepId) (o : Outcome) :
    (resolve s o : Act (Watched σ) Unit).Always (Keeps w) := by
  refine always_of_ends fun e => (resolve_ends s o e).mono ?_ ?_
  · rintro _ e' ⟨hc, -, t, ha⟩
    exact keeps_given hc ha
  · rintro _ e' rfl
    exact refl _

end Engine

end ApprovalFlow
