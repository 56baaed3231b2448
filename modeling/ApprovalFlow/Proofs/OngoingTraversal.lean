import ApprovalFlow.Proofs.EndedWorkflows

/-!
# A traversal that is under way

A traversal of the workflow goes from turn to turn, with hooks that may reenter it. Between the turns the
workflow is not over, or it has gone on in spite of that (`Going`). A turn that runs a step whose hook ends
the workflow and returns (`Spoilt`) leaves the step behind nevertheless: from then on the end is broken. A
failing hook leads out of the traversal, and so the workflow rests.
-/

namespace ApprovalFlow.Engine

open Act

variable {σ γ α β : Type} {w : WorkflowId} {s : StepId} {e e₁ e' e'' : Engine (Watched σ)}
  {h : Hooks (Watched σ) γ}

/-! ## Within a traversal -/

/-- While the traversal goes on, the workflow is not over, or has gone on in spite of that. -/
def Going (w : WorkflowId) (e : Engine (Watched σ)) : Prop := Clean w e ∨ Broken w e

def Ran (w : WorkflowId) (s : StepId) (e : Engine (Watched σ)) : Prop := Going w e ∨ Spoilt w s e

structure Runs (w : WorkflowId) (s : StepId) (e e' : Engine (Watched σ)) : Prop where
  grounded : Grounded w e'
  onward : Onward w e e'
  ran : Ran w s e'

/-- A small change on the way: the workflow and what was seen of it stay as they are. -/
structure Passes (w : WorkflowId) (s : StepId) (e e' : Engine (Watched σ)) : Prop where
  lasting : Lasting w e e'
  workflow : e'.workflow w = e.workflow w
  going : Going w e → Going w e'
  spoilt : Spoilt w s e → Spoilt w s e'

theorem Going.settled (hg : Going w e) (h : Grounded w e) : Settled w e := by
  rcases hg with hc | hb
  · exact ⟨h, .inl hc⟩
  · exact ⟨h, .inr (.inr hb)⟩

instance : IsPreorder (Engine (Watched σ)) (Passes w s) where
  refl e := ⟨lasting_refl e, rfl, id, id⟩
  trans _ _ _ h h' :=
    ⟨h.lasting.trans h'.lasting, h'.workflow.trans h.workflow, fun hg => h'.going (h.going hg),
      fun hs => h'.spoilt (h.spoilt hs)⟩

theorem Passes.onward (h : Passes w s e e') : Onward w e e' := h.lasting.onward h.workflow

theorem Passes.grounded (h : Passes w s e e') (hg : Grounded w e) : Grounded w e' :=
  hg.same h.lasting h.workflow

theorem Runs.passes (h : Runs w s e e') (h' : Passes w s e' e'') : Runs w s e e'' :=
  ⟨h'.grounded h.grounded, h.onward.trans h'.onward, h.ran.imp h'.going h'.spoilt⟩

theorem Looks.passes (h : Looks w e e') : Passes w s e e' :=
  ⟨h.onward.toLasting, h.workflow w, fun hg => hg.imp h.clean h.broken, h.spoilt⟩

theorem passes_of_same (hl : Lasting w e e') (hw : e'.workflow w = e.workflow w)
    (hh : e'.host = e.host) : Passes w s e e' :=
  ⟨hl, hw, fun hg => hg.imp (fun hc => hc.same hw hh) fun hb => hb.same hw hh,
    fun hs => hs.same hl hw hh⟩

theorem passes_alike (ha : e'.Alike e) : Passes w s e e' := by
  refine (Looks.passes (looks_of_host ?_ ?_ ha.host))
  · exact congrArg Core.steps ha.core
  · exact congrArg Core.workflows ha.core

theorem passes_mapStep (t : StepId) (f : Step → Step)
    (hsucc : (f (e.step t)).successors = (e.step t).successors)
    (hdone : (e.step t).isCompleted = true → (f (e.step t)).isCompleted = true) :
    Passes w s e (e.mapStep t f) :=
  passes_of_same (lasting_mapStep f hsucc hdone (alike_refl _)) rfl rfl

/-- Starting a step is but a small change, whatever it means for a workflow that is over. -/
theorem passes_start (hs : ∀ t, (h.starting t).Always (Looks w)) (t : StepId) :
    (start h t).Always (Passes w s) := by
  refine always_start (fun f hw ha => ?_) ((hs t).mono Looks.passes)
  refine passes_of_same (lasting_mapStep f ?_ (fun hc => (hw.final hc).1) ha)
    (workflow_of_core ha.core w) ha.host
  exact Step.successors_of_frame hw.frame

/-! ## Running a step -/

theorem passes_host (d : Watched σ) (hs : d.spoiled = e.host.spoiled)
    (hg : d.glimpses = e.host.glimpses) (hr : d.replies = e.host.replies) :
    Passes w s e { e with host := d } := by
  refine ⟨⟨id, fun _ => id, fun _ => rfl, fun _ => id, fun h => hs.trans h, fun ht hu => ?_⟩, rfl,
    fun hgo => ?_, fun hsp => ⟨hs.trans hsp.spoiled, hsp.terminal, hsp.done, hg ▸ hsp.seen⟩⟩
  · unfold Truthful
    rw [show ({ e with host := d } : Engine (Watched σ)).host.replies = e.host.replies from hr]
    exact ht (hs ▸ hu)
  refine hgo.imp (fun hc => ⟨hs.trans hc.unspoiled, hc.live, ?_⟩)
    fun hb => ⟨hs.trans hb.spoiled, hb.terminal, ?_⟩
  · rw [hg]; exact hc.unseen
  · rw [hg]; exact hb.moved

/-- When a hook returns, the run is spoiled if the workflow has ended under it. -/
theorem return_ends {F : Failure → Engine (Watched σ) → Prop} (hgo : Going w e)
    (hs : s = (e.workflow w).current) (hset : Settled w e₁) (ho : Onward w e e₁)
    (hl : Looks w e₁ e') (hseen : e₁.glimpse w ∈ e'.host.glimpses) :
    (onlyIf (!(e.workflow w).state.isTerminal && (e'.workflow w).state.isTerminal)
      (updateHost ({ · with spoiled := true }))).Ends e' (fun _ => Runs w s e) F := by
  have hset' := (hl.keeps hset).1
  have ho' := ho.trans hl.onward
  rw [ends_onlyIf]
  -- Spoiling changes neither the workflow nor the steps.
  let e'' : Engine (Watched σ) := { e' with host := { e'.host with spoiled := true } }
  have hlast : Lasting w e' e'' :=
    ⟨id, fun _ => id, fun _ => rfl, fun _ => id, fun _ => rfl, fun _ hu => nomatch hu⟩
  have hspoil : Ran w s e'' → Runs w s e e'' := fun hr =>
    ⟨hset'.grounded.same hlast rfl, ho'.trans (hlast.onward rfl), hr⟩
  rcases hgo with hc | hb
  · rw [hc.live, Bool.not_false, Bool.true_and]
    rcases hset'.phase with hc' | hr' | hb'
    · rw [hc'.live, if_neg Bool.false_ne_true]
      exact ⟨hset'.grounded, ho', .inl (.inl hc')⟩
    · rw [hr'.terminal, if_pos rfl]
      refine hspoil (.inr ⟨rfl, hr'.terminal, ?_, e₁.glimpse w, hseen, ?_, ?_⟩)
      · rcases ho'.stays hc.live with hdone | ⟨hlive, -⟩
        · rw [hs]
          exact hdone
        · rw [hr'.terminal] at hlive
          contradiction
      · rw [← hr'.terminal, hl.workflow]
        rfl
      · show _ ≤ (e'.workflow w).history.length
        rw [hl.workflow]
        exact Nat.le_refl _
    · rw [hb'.terminal, if_pos rfl]
      exact hspoil (.inl (.inr ⟨rfl, hb'.terminal, hb'.moved⟩))
  · rw [hb.terminal, Bool.not_true, Bool.false_and, if_neg Bool.false_ne_true]
    refine ⟨hset'.grounded, ho', .inl (.inr ?_)⟩
    have hspoiled := ho'.spoiled hb.spoiled
    rcases hset'.phase with hc' | hr' | hb'
    · rw [hc'.unspoiled] at hspoiled
      contradiction
    · rw [hr'.unspoiled] at hspoiled
      contradiction
    · exact hb'

/-- A watched hook that ends the workflow and returns spoils the run. -/
theorem watch_ends {hook : Act (Watched σ) α} (hk : hook.Always (Keeps w)) (hg : Grounded w e)
    (hgo : Going w e) (hs : s = (e.workflow w).current) :
    (watch w s hook).Ends e (fun _ => Runs w s e) (fun _ => Halts w e) := by
  -- Before the hook runs, the step is logged; that is no part of what counts here.
  obtain ⟨e₀, he₀⟩ : ∃ e₀, e₀ = { e with host := { e.host with executed := e.host.executed ++ [s] } } :=
    ⟨_, rfl⟩
  have hp : Passes w s e e₀ := by
    rw [he₀]
    exact passes_host _ rfl rfl rfl
  have ho₀ := hp.onward
  have hgo₀ := hp.going hgo
  unfold watch
  rw [ends_bind]
  show Ends _ { e with host := { e.host with executed := e.host.executed ++ [s] } } _ _
  rw [← he₀, ends_bind, ends_get, ends_bind]
  refine (hk.ends e₀).mono (fun a e₁ hk₁ => ?_) fun _ e₁ hk₁ => ?_
  all_goals obtain ⟨hset₁, ho₁⟩ := hk₁ (hgo₀.settled (hp.grounded hg))
  · rw [ends_bind]
    show Ends _ ((look w).run e₁).2 _ _
    -- The look when the hook returns shows the workflow as the hook has left it.
    have hlook := looks_look w e₁
    have hseen : e₁.glimpse w ∈ ((look w).run e₁).2.host.glimpses :=
      List.mem_append_right _ (List.mem_singleton_self _)
    rw [ends_bind, ends_get, ends_bind]
    have hret := return_ends (F := fun _ => Halts w e) hgo₀ (hs.trans (by rw [hp.workflow])) hset₁ ho₁
      hlook hseen
    refine hret.mono (fun _ e' hr => ?_) fun _ _ hf => hf
    exact ⟨hr.grounded, ho₀.trans hr.onward, hr.ran⟩
  · exact ⟨hset₁, ho₀.trans ho₁⟩

structure Watches (w : WorkflowId) (h : Hooks (Watched σ) γ) : Prop where
  starting : ∀ s, (h.starting s).Always (Looks w)
  observe : ∀ l event, (h.observe l event).Always (Looks w)
  execute : ∀ s context, ∃ hook, h.execute s context = watch w s hook ∧ hook.Always (Keeps w)
  present : ∀ s context, ∃ hook, h.present s context = watch w s hook ∧ hook.Always (Keeps w)

section Running

variable (hh : Watches w h) (hg : Grounded w e) (hgo : Going w e) (hs : s = (e.workflow w).current)
include hh hg hgo hs

theorem execute_ends (context : γ) :
    (execute h s context).Ends e (fun _ => Runs w s e) (fun _ => Halts w e) := by
  unfold execute
  rw [ends_bind, ends_get]
  cases (e.step s).isDecision
  case false =>
    rw [if_neg Bool.false_ne_true]
    obtain ⟨hook, hx, hk⟩ := hh.execute s context
    rw [hx]
    exact watch_ends hk hg hgo hs
  rw [if_pos rfl, ends_bind]
  unfold presentDecision
  obtain ⟨hook, hx, hk⟩ := hh.present s context
  rw [hx, ends_bind]
  refine (watch_ends hk hg hgo hs).mono (fun _ e₁ h₁ => ?_) fun _ _ h₁ => h₁
  rw [ends_bind, ends_updateStep, ends_bind, ends_get, ends_note, ends_pure]
  refine (h₁.passes (passes_mapStep s _ rfl id)).passes (passes_alike (alike_aside _ _ _))

theorem executeStep_ends (context : γ) :
    (executeStep h w s context).Ends e (fun _ => Runs w s e) (fun _ => Halts w e) := by
  unfold executeStep
  rw [ends_bind]
  refine (ends_guarding (execute_ends hh hg hgo hs context) ?_).mono (fun o e₁ h₁ => ?_) fun _ _ h₁ => h₁
  · -- To note the failure on the step keeps the workflow settled.
    intro _ e' h' text e'' ha _
    obtain ⟨hset, ho⟩ := keeps_mapStep _ rfl id rfl ha h'.settled
    exact ⟨hset, h'.onward.trans ho⟩
  rw [ends_bind, ends_get, ends_onlyIf]
  cases hc : (e₁.step s).isCompleted
  case true =>
    rw [Bool.not_true, Bool.false_and, if_neg Bool.false_ne_true]
    exact h₁
  split
  · -- The step is not completed, so the hook has not ended the workflow.
    have hgo₁ : Going w e₁ := h₁.ran.resolve_right fun hsp => by
      rw [hsp.done] at hc
      contradiction
    refine (setOutcome_ends s o e₁).mono ?_ ?_
    · rintro _ e' ⟨-, t, ha⟩
      refine h₁.passes (passes_of_same ?_ (workflow_of_core ha.core w) ha.host)
      refine lasting_mapStep (·.given o t) ?_ (fun h => by rw [hc] at h; contradiction) ha
      unfold Step.given
      split <;> rfl
    · rintro _ e' ⟨rfl, -⟩
      exact ⟨hgo₁.settled h₁.grounded, h₁.onward⟩
  · exact h₁

theorem runStep_ends (context : γ) :
    (runStep h w s context).Ends e (fun _ => Runs w s e) (fun _ => Halts w e) := by
  have hstart := (passes_start (s := s) hh.starting s).ends e
  unfold runStep
  rw [ends_bind, ends_get, ends_bind, ends_onlyIf]
  have hrest : ∀ e₁, Passes w s e e₁ → (onlyIf (!((e.step s).isStarted && (e.step s).isPending))
      (executeStep h w s context)).Ends e₁ (fun _ => Runs w s e) (fun _ => Halts w e) := by
    intro e₁ h₁
    have ho₁ := h₁.onward
    rw [ends_onlyIf]
    split
    · refine (executeStep_ends hh (h₁.grounded hg) (h₁.going hgo) (by rw [h₁.workflow]; exact hs)
        context).mono (fun _ e₂ h₂ => ?_) fun _ e₂ h₂ => ?_
      · exact ⟨h₂.grounded, ho₁.trans h₂.onward, h₂.ran⟩
      · exact ⟨h₂.settled, ho₁.trans h₂.onward⟩
    · exact ⟨h₁.grounded hg, ho₁, .inl (h₁.going hgo)⟩
  split
  · refine (ends_guarding hstart fun _ e₁ h₁ text e₂ ha _ => ?_).mono (fun _ e₁ h₁ => hrest e₁ h₁) ?_
    · refine IsTrans.trans _ _ _ h₁ (passes_of_same ?_ (workflow_of_core ha.core w) ha.host)
      exact lasting_mapStep _ rfl id ha
    · intro _ e₁ h₁
      exact ⟨(h₁.going hgo).settled (h₁.grounded hg), h₁.onward⟩
  · exact hrest e (refl e)

end Running

/-! ## Leaving a step behind -/

structure Goes (w : WorkflowId) (e e' : Engine (Watched σ)) : Prop where
  grounded : Grounded w e'
  onward : Onward w e e'
  going : Going w e'

structure Stops (w : WorkflowId) (st : WorkflowState) (e e' : Engine (Watched σ)) : Prop
    extends Halts w e e' where
  ending : e'.host.spoiled = false → (e'.workflow w).state.isTerminal = true → st.isTerminal = true

theorem Goes.halts (h : Goes w e e') : Halts w e e' := ⟨h.going.settled h.grounded, h.onward⟩

theorem Goes.stops (h : Goes w e e') (st : WorkflowState) : Stops w st e e' := by
  refine ⟨h.halts, fun hu hover => ?_⟩
  rcases h.going with hc | hb
  · rw [hc.live] at hover
    contradiction
  · rw [hb.spoiled] at hu
    contradiction

theorem Goes.passes (h : Goes w e e') (hp : Passes w s e' e'') : Goes w e e'' :=
  ⟨hp.grounded h.grounded, h.onward.trans hp.onward, hp.going h.going⟩

theorem Goes.aside (h : Goes w e e') (j : Array Logging.Note) (c : Clock) : Goes w e (e'.aside j c) :=
  h.passes (passes_alike (s := (e'.workflow w).current) (alike_aside e' j c))

theorem Going.of_history (hgo : Going w e) (hst : (e'.workflow w).state = (e.workflow w).state)
    (hlen : (e.workflow w).history.length ≤ (e'.workflow w).history.length) (hh : e'.host = e.host) :
    Going w e' := by
  refine hgo.imp (fun hc => ⟨?_, ?_, ?_⟩) fun hb => ⟨?_, ?_, ?_⟩
  · rw [hh]; exact hc.unspoiled
  · rw [hst]; exact hc.live
  · rw [hh]; exact hc.unseen
  · rw [hh]; exact hb.spoiled
  · rw [hst]; exact hb.terminal
  · obtain ⟨g, hg, hover, hlt⟩ := hb.moved
    rw [hh]
    exact ⟨g, hg, hover, Nat.lt_of_lt_of_le hlt hlen⟩

theorem Grounded.of_current (hg : Grounded w e) (hl : Lasting w e e')
    (hcur : e'.HasStep (e'.workflow w).current) : Grounded w e' where
  hasWorkflow := hl.hasWorkflow hg.hasWorkflow
  current := hcur
  closed s t ht := hl.hasStep t (hg.closed s t (hl.targets s ▸ ht))

/-- Leaving a step behind breaks the end of a workflow that is over. -/
theorem Runs.leaves (hr : Runs w s e e₁) (hs : s = (e.workflow w).current)
    (hc : (e₁.step s).isCompleted = true) : Goes w e (e₁.mapWorkflow w (·.left s)) := by
  have hwf := workflow_mapWorkflow_self (·.left s) hr.grounded.hasWorkflow
  have hl : Lasting w e₁ (e₁.mapWorkflow w (·.left s)) := lasting_mapWorkflow (·.left s) (alike_refl _)
  have hlen : (e₁.workflow w).history.length < ((e₁.workflow w).left s).history.length := by
    unfold Workflow.left
    rw [List.length_append]
    exact Nat.lt_succ_self _
  refine ⟨hr.grounded.of_current hl ?_, ⟨hr.onward.toLasting.trans hl, fun _ => .inl ?_⟩, ?_⟩
  · rw [hwf]
    exact hr.grounded.current
  · rw [← hs]
    exact hc
  -- If the hook has ended the workflow, this is where its end is broken.
  rcases hr.ran with hgo | hsp
  · exact hgo.of_history (by rw [hwf]; rfl) (by rw [hwf]; exact Nat.le_of_lt hlen) rfl
  · obtain ⟨g, hg, hover, hle⟩ := hsp.seen
    refine .inr ⟨hsp.spoiled, by rw [hwf]; exact hsp.terminal, g, hg, hover, ?_⟩
    rw [hwf]
    exact Nat.lt_of_le_of_lt hle hlen

theorem Going.clean (hgo : Going w e) (hlive : (e.workflow w).state.isTerminal = false) : Clean w e :=
  hgo.resolve_right fun hb => by
    rw [hb.terminal] at hlive
    contradiction

section Changing

variable (hg : Goes w e e₁) {f : Workflow → Workflow} (hc : Clean w e₁)
  (hcur : (f (e₁.workflow w)).current = (e₁.workflow w).current)
  (he : e'.Alike (e₁.mapWorkflow w f))
include hg hc hcur he

/-- A workflow that is not over changes its state. -/
theorem Goes.changes (hlive : (f (e₁.workflow w)).state.isTerminal = false) : Goes w e e' := by
  have hl : Lasting w e₁ e' := lasting_mapWorkflow f he
  have hwf : e'.workflow w = f (e₁.workflow w) := by
    rw [workflow_of_core he.core, workflow_mapWorkflow_self f hg.grounded.hasWorkflow]
  refine ⟨hg.grounded.of_current hl ?_, hg.onward.trans ⟨hl, fun _ => .inr ?_⟩, .inl ⟨?_, ?_, ?_⟩⟩
  · rw [hwf, hcur]
    exact hl.hasStep _ hg.grounded.current
  · rw [hwf]
    exact ⟨hlive, hcur⟩
  · rw [he.host]; exact hc.unspoiled
  · rw [hwf]; exact hlive
  · rw [he.host]; exact hc.unseen

/-- A workflow that is not over ends, with its current step completed. -/
theorem Goes.ends (hover : (f (e₁.workflow w)).state.isTerminal = true)
    (hdone : (e₁.step (e.workflow w).current).isCompleted = true) : Halts w e e' := by
  have hl : Lasting w e₁ e' := lasting_mapWorkflow f he
  have hwf : e'.workflow w = f (e₁.workflow w) := by
    rw [workflow_of_core he.core, workflow_mapWorkflow_self f hg.grounded.hasWorkflow]
  refine ⟨⟨hg.grounded.of_current hl ?_, .inr (.inl ⟨?_, ?_, fun g hseen hg' => ?_⟩)⟩,
    hg.onward.toLasting.trans hl, fun _ => .inl (hl.done _ hdone)⟩
  · rw [hwf, hcur]
    exact hl.hasStep _ hg.grounded.current
  · rw [he.host]; exact hc.unspoiled
  · rw [hwf]; exact hover
  · -- Nobody has seen the workflow after its end.
    rw [hc.unseen g (he.host ▸ hseen)] at hg'
    contradiction

end Changing

section Leaving

variable (hh : Watches w h)
include hh

theorem emit_looks (kind : EventKind) : (emit h w kind).Always (Looks w) :=
  always_emit (fun hs hw _ hh _ => looks_of_host hs hw hh) hh.observe w kind

/-- Once a workflow is over, its listeners only take a look. -/
theorem emit_halts (hl : Halts w e e₁) {next : WorkflowState} (hnext : next.isTerminal = true)
    (kind : EventKind) :
    (emit h w kind).Ends e₁ (fun _ => Stops w next e) (fun _ => Halts w e) := by
  have hemit : ∀ e', Looks w e₁ e' → Halts w e e' := fun e' h' =>
    ⟨(h'.keeps hl.settled).settled, hl.onward.trans h'.onward⟩
  exact ((emit_looks hh kind).ends e₁).mono (fun _ e' h' => ⟨hemit e' h', fun _ _ => hnext⟩)
    fun _ e' h' => hemit e' h'

theorem finish_ends (hg : Goes w e e₁) {next : WorkflowState} (hnext : next.isTerminal = true)
    (hdone : (e₁.step (e.workflow w).current).isCompleted = true) (kind : EventKind) :
    (finish h w next kind).Ends e₁ (fun _ => Stops w next e) (fun _ => Halts w e) := by
  cases ha : (e₁.workflow w).state.allows next
  case false =>
    unfold finish moveWorkflow
    simp only [ends_bind, ends_get, ends_failIf, ha]
    exact hg.halts
  -- A workflow that may end is not over yet.
  have hc : Clean w e₁ := hg.going.clean (WorkflowState.live_of_allows ha)
  refine ends_finish next kind ha fun e₂ he _ => emit_halts hh ?_ hnext kind
  exact hg.ends (f := (·.ended next _)) hc rfl he hnext hdone

omit hh in
theorem follow_goes (hg : Goes w e e₁) {t : StepId} (ht : t ∈ e₁.targets s)
    (hdone : (e₁.step (e.workflow w).current).isCompleted = true) (o : Outcome) :
    (follow w s t o).Ends e₁ (fun _ => Goes w e) (fun _ => Halts w e) := by
  unfold follow
  simp only [ends_bind, ends_get, ends_failIf, ends_bindStep, ends_updateWorkflow, ends_note]
  split
  · exact hg.halts
  split
  · exact hg.halts
  refine Goes.aside ?_ _ _
  have hl : Lasting w e₁ (e₁.mapStep t (·.boundTo (e₁.workflow w))) :=
    lasting_mapStep (·.boundTo (e₁.workflow w)) rfl id (alike_refl _)
  obtain ⟨e₂, he₂⟩ : ∃ e₂, e₂ = e₁.mapStep t (·.boundTo (e₁.workflow w)) := ⟨_, rfl⟩
  have hw₂ : e₂.HasWorkflow w := by rw [he₂]; exact hl.hasWorkflow hg.grounded.hasWorkflow
  have hwf := workflow_mapWorkflow_self (·.moved s t) hw₂
  have hl₂ : Lasting w e₁ (e₂.mapWorkflow w (·.moved s t)) := by
    rw [← he₂] at hl
    exact hl.trans (lasting_mapWorkflow _ (alike_refl _))
  have hsame : e₂.workflow w = e₁.workflow w := by rw [he₂]; rfl
  have hgoes : Goes w e (e₂.mapWorkflow w (·.moved s t)) := by
    refine ⟨hg.grounded.of_current hl₂ ?_, ⟨hg.onward.toLasting.trans hl₂, fun _ => .inl ?_⟩, ?_⟩
    · rw [hwf]
      exact hl₂.hasStep t (hg.grounded.closed s t ht)
    · exact hl₂.done _ hdone
    · refine hg.going.of_history ?_ ?_ (by rw [he₂]; rfl)
      · rw [hwf, hsame]; rfl
      · rw [hwf, hsame]; exact Nat.le_refl _
  rw [he₂] at hgoes
  exact hgoes

theorem leave_goes (hr : Runs w s e e₁) (hs : s = (e.workflow w).current)
    (hc : (e₁.step s).isCompleted = true) :
    (leave h w s).Ends e₁ (after (fun st => Stops w st e) (Goes w e)) (fun _ => Halts w e) := by
  have hg := hr.leaves hs hc
  have hdone : (e₁.step (e.workflow w).current).isCompleted = true := hs ▸ hc
  unfold leave
  rw [ends_bind, record, ends_updateWorkflow, ends_bind, ends_get]
  show Ends _ (e₁.mapWorkflow w (·.left s)) _ _
  dsimp only
  split
  · rw [ends_bind]
    exact finish_ends hh hg rfl hdone _
  · cases hn : (e₁.step s).next? (e₁.step s).outcome with
    | none =>
      rw [step_mapWorkflow, hn]
      exact (ends_bind _ _).mpr (finish_ends hh hg rfl hdone _)
    | some t =>
      rw [step_mapWorkflow, hn]
      refine (ends_bind _ _).mpr (follow_goes (s := s) hg ?_ hdone _)
      exact mem_targets_of_next? (e := e₁) hn

/-- At a step that is not completed the traversal stops. -/
theorem pause_goes (hr : Runs w s e e₁) (hc : (e₁.step s).isCompleted = false) :
    (pause h w s).Ends e₁ (after (fun st => Stops w st e) (Goes w e)) (fun _ => Halts w e) := by
  have hgo : Going w e₁ := hr.ran.resolve_right fun hsp => by
    rw [hsp.done] at hc
    contradiction
  have hg : Goes w e e₁ := ⟨hr.grounded, hr.onward, hgo⟩
  unfold pause
  rw [ends_bind, ends_get]
  dsimp only
  split
  · rw [ends_bind]
    cases ha : (e₁.workflow w).state.allows .waiting
    case false =>
      simp only [moveWorkflow, ends_bind, ends_get, ends_failIf, ha]
      exact hg.halts
    refine ends_moveWorkflow .waiting ha fun e₂ he _ => ?_
    have hg₂ : Goes w e e₂ := hg.changes (f := ({ · with state := .waiting }))
      (hgo.clean (WorkflowState.live_of_allows ha)) rfl he rfl
    rw [ends_bind]
    exact ((emit_looks hh _).ends e₂).mono (fun _ _ h' => (hg₂.passes (s := s) h'.passes).stops .waiting)
      fun _ _ h' => (hg₂.passes (s := s) h'.passes).halts
  · exact hg.stops .running

/-! ## The whole traversal -/

theorem turn_goes (hg : Grounded w e) (hgo : Going w e) (context : γ) :
    (turn h w context).Ends e (after (fun st => Stops w st e) (Goes w e)) (fun _ => Halts w e) := by
  unfold turn
  simp only [ends_bind, ends_get, ends_onlyIf]
  have hrest : ∀ e₁, Runs w (e.workflow w).current e e₁ →
      (if (e₁.step (e.workflow w).current).isCompleted then leave h w (e.workflow w).current
        else pause h w (e.workflow w).current).Ends e₁ (after (fun st => Stops w st e) (Goes w e))
        (fun _ => Halts w e) := by
    intro e₁ hr
    cases hc : (e₁.step (e.workflow w).current).isCompleted
    case true => exact leave_goes hh hr rfl hc
    case false => exact pause_goes hh hr hc
  split
  · exact (runStep_ends hh hg hgo rfl context).mono (fun _ e₁ hr => hrest e₁ hr) fun _ _ hf => hf
  · exact hrest e ⟨hg, onward_refl e, .inl hgo⟩

theorem process_goes (hg : Goes w e e₁) (context : γ) :
    (process h w context).Ends e₁ (fun st => Stops w st e) (fun _ => Halts w e) := by
  unfold process
  rw [ends_bind, ends_get]
  refine traverse_ends (P := Goes w e) (fun e₂ h₂ => ?_) (fun e₂ h₂ => h₂.halts) _ hg
  refine (turn_goes hh h₂.grounded h₂.going context).mono ?_ fun _ e₃ h₃ => ?_
  · intro progress e₃ h₃
    cases progress with
    | stop st => exact ⟨⟨h₃.settled, h₂.onward.trans h₃.onward⟩, h₃.ending⟩
    | goOn => exact ⟨h₃.grounded, h₂.onward.trans h₃.onward, h₃.going⟩
  · exact ⟨h₃.settled, h₂.onward.trans h₃.onward⟩

end Leaving

end ApprovalFlow.Engine
