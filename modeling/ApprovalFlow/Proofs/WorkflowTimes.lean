import ApprovalFlow.Proofs.StepTimes
import ApprovalFlow.Proofs.Walk

/-!
# The times of a workflow

The times of a workflow and of the steps along its walk are in sequence (`Paced`): a step that was left behind
had been completed before the next one started, and the first one starts after the workflow. This is kept
while the current step is worked on, and when the workflow changes. It goes on only from a step that has
started (`Punctual`), so a step that was left behind without an abort has started.
-/

namespace ApprovalFlow

open Act

variable {σ γ : Type}

/-- The step is as it was made: it has neither started nor completed nor been put to an actor. -/
structure Step.Pristine (st : Step) : Prop extends Step.Fresh st where
  unbegun : st.isBegun = false

theorem Step.Pristine.incomplete {st : Step} (hp : st.Pristine) : st.isCompleted = false := by
  unfold isCompleted
  rw [hp.created]
  rfl

namespace Engine

variable {h : Hooks σ γ} {own : StepId → Prop} {w : WorkflowId} {s t : StepId} {e e' : Engine σ}

structure Predates (e : Engine σ) (s t : StepId) : Prop where
  started : (e.step s).isStarted = true
  ordered : (e.step s).startTime ≤ (e.step s).endTime
  before : (e.step t).isStarted = true → (e.step s).endTime ≤ (e.step t).startTime

/-- The times of the workflow and of its steps, which `own` lists, are in sequence, and all of them have
passed. -/
structure Paced (own : StepId → Prop) (w : WorkflowId) (e : Engine σ) : Prop where
  steady : e.clock.Steady
  timed : ∀ t, own t → (e.step t).Timed e.clock.now
  successive : (e.workflow w).history.IsChain (Predates e)
  underway : (e.workflow w).state.isTerminal = false →
    ∀ s ∈ (e.workflow w).history.getLast?, Predates e s (e.workflow w).current
  entered : (e.workflow w).state.isTerminal = false → (e.workflow w).state ≠ .created →
    (e.workflow w).startTime ≤ e.clock.now
  opened : (e.step (e.workflow w).first).isStarted = true → (e.workflow w).state ≠ .created ∧
    (e.workflow w).startTime ≤ (e.step (e.workflow w).first).startTime
  closed : (e.workflow w).state.isTerminal = true →
    (e.step (e.workflow w).current).endTime ≤ (e.workflow w).endTime

/-- Besides, the current step has started if it is completed, unless the workflow was aborted on it. -/
structure Punctual (own : StepId → Prop) (w : WorkflowId) (e : Engine σ) : Prop
    extends Paced own w e where
  earned : (e.workflow w).state.isTerminal = false →
    (e.step (e.workflow w).current).isCompleted = true →
      (e.step (e.workflow w).current).isStarted = true

instance : IsTrans StepId (Predates e) where
  trans _ _ _ hst htu :=
    ⟨hst.started, hst.ordered, fun hu => (hst.before htu.started).trans (htu.ordered.trans (htu.before hu))⟩

theorem Predates.of_abreast (hp : Predates e s t) (hs : Step.Abreast (e.step s) (e'.step s))
    (ht : Step.Abreast (e.step t) (e'.step t)) : Predates e' s t := by
  refine ⟨?_, ?_, ?_⟩
  · rw [hs.isStarted]
    exact hp.started
  · rw [hs.startTime, hs.endTime]
    exact hp.ordered
  · rw [ht.isStarted, hs.endTime, ht.startTime]
    exact hp.before

/-! ## Where the workflow stays -/

/-- Where the steps of the workflow are left alone, its times are kept. -/
theorem Paced.abreast (hp : Paced own w e) (hg : e.clock.GoesOn e'.clock)
    (hwf : (e.workflow w).EqButListeners (e'.workflow w))
    (hs : ∀ t, own t ∨ t = (e.workflow w).first ∨ t ∈ (e.workflow w).walk →
      Step.Abreast (e.step t) (e'.step t)) : Paced own w e' := by
  have hnow := hp.steady.now_le hg
  have hfirst := hs _ (.inr (.inl rfl))
  have hcur := hs _ (.inr (.inr (Workflow.current_mem_walk _)))
  have hpast : ∀ t ∈ (e.workflow w).history, Step.Abreast (e.step t) (e'.step t) := fun t ht =>
    hs t (.inr (.inr (Workflow.mem_walk_of_mem_history ht)))
  refine ⟨hp.steady.of_goesOn hg, fun t ht => ?timed, ?successive, ?underway, ?entered, ?opened, ?closed⟩
  case timed => exact ((hp.timed t ht).of_abreast (hs t (.inl ht))).mono hnow
  all_goals obtain ⟨listeners, hwf⟩ := hwf; rw [hwf]
  case successive =>
    exact hp.successive.imp_of_mem_imp fun s t hmem hmem' hst =>
      hst.of_abreast (hpast s hmem) (hpast t hmem')
  case underway =>
    intro hlive s hlast
    exact (hp.underway hlive s hlast).of_abreast (hpast s (List.mem_of_getLast? hlast)) hcur
  case entered => exact fun hlive hn => (hp.entered hlive hn).trans hnow
  case opened =>
    rw [hfirst.isStarted, hfirst.startTime]
    exact hp.opened
  case closed =>
    rw [hcur.endTime]
    exact hp.closed

theorem Punctual.abreast (hp : Punctual own w e) (hg : e.clock.GoesOn e'.clock)
    (hwf : (e.workflow w).EqButListeners (e'.workflow w))
    (hs : ∀ t, own t ∨ t = (e.workflow w).first ∨ t ∈ (e.workflow w).walk →
      Step.Abreast (e.step t) (e'.step t)) : Punctual own w e' := by
  refine ⟨hp.toPaced.abreast hg hwf hs, ?_⟩
  have hcur := hs _ (.inr (.inr (Workflow.current_mem_walk _)))
  obtain ⟨listeners, hwf⟩ := hwf
  rw [hwf]
  dsimp only
  rw [hcur.isCompleted, hcur.isStarted]
  exact hp.earned

theorem Punctual.elapsed (hp : Punctual own w e) (h : Elapsed e e') : Punctual own w e' :=
  hp.abreast h.clock (Workflow.eqButListeners_of_eq (workflow_of_workflows h.workflows w)) fun t _ => by
    rw [step_of_steps h.steps]
    exact refl _

section Worked

variable (hk : Walking (fun _ : σ => []) own w e)
include hk

theorem Walking.elapsed (h : Elapsed e e') : Walking (fun _ => []) own w e' :=
  hk.of_near (near_of_same h.steps h.workflows fun _ ht => absurd ht List.not_mem_nil)

theorem Walking.own_of (ht : own t ∨ t = (e.workflow w).first ∨ t ∈ (e.workflow w).walk) : own t := by
  rcases ht with ht | rfl | ht
  · exact ht
  · exact hk.inside _ (List.mem_of_head? hk.begins)
  · exact hk.inside t ht

/-- Work on the current step, which has not started too early, keeps the times in sequence. -/
theorem Paced.worked (hp : Paced own w e) (hlive : (e.workflow w).state.isTerminal = false)
    (hg : e.clock.GoesOn e'.clock) (hwf : e'.workflow w = e.workflow w)
    (hothers : ∀ t, t ≠ (e.workflow w).current → e'.step t = e.step t)
    (htimed : (e'.step (e.workflow w).current).Timed e'.clock.now)
    (hstarts : Step.StartsFrom e.clock.now (e.step (e.workflow w).current)
      (e'.step (e.workflow w).current))
    (hcreated : (e.workflow w).state = .created →
      (e'.step (e.workflow w).current).startTime = (e.step (e.workflow w).current).startTime) :
    Paced own w e' := by
  have hnow := hp.steady.now_le hg
  -- The steps that were left behind are other steps than the current one.
  have hnodup : ((e.workflow w).history ++ [(e.workflow w).current]).Nodup :=
    hk.walk_eq hlive ▸ hk.distinct
  have hpast : ∀ s ∈ (e.workflow w).history, e'.step s = e.step s := fun s hs =>
    hothers s fun hsc => (List.nodup_append.mp hnodup).2.2 s hs _ (List.mem_singleton_self _) hsc
  refine ⟨hp.steady.of_goesOn hg, fun t ht => ?timed, ?successive, ?underway, ?entered, ?opened, ?closed⟩
  case timed =>
    by_cases htc : t = (e.workflow w).current
    · exact htc ▸ htimed
    · rw [hothers t htc]
      exact (hp.timed t ht).mono hnow
  all_goals rw [hwf]
  case successive =>
    refine hp.successive.imp_of_mem_imp fun s t hs ht hst => hst.of_abreast ?_ ?_
    · exact hpast s hs ▸ refl _
    · exact hpast t ht ▸ refl _
  case underway =>
    intro hlive s hlast
    have hs := List.mem_of_getLast? hlast
    have hst := hp.underway hlive s hlast
    refine ⟨hpast s hs ▸ hst.started, hpast s hs ▸ hst.ordered, fun hcs => ?_⟩
    rw [hpast s hs]
    cases hc : (e.step (e.workflow w).current).isStarted
    case true =>
      rw [hstarts.kept hc]
      exact hst.before hc
    case false =>
      -- The step before was completed when this one started.
      have hown := hk.inside s (Workflow.mem_walk_of_mem_history hs)
      have hend := (hp.timed s hown).completed (hk.done s hs)
      exact hend.trans (hstarts.since hc hcs)
  case entered => exact fun hlive hn => (hp.entered hlive hn).trans hnow
  case opened =>
    by_cases hfc : (e.workflow w).first = (e.workflow w).current
    · rw [hfc]
      intro hs
      cases hc : (e.step (e.workflow w).current).isStarted
      case true =>
        rw [hstarts.kept hc]
        exact hfc ▸ hp.opened (hfc ▸ hc)
      case false =>
        have hn : (e.workflow w).state ≠ .created := fun hn => by
          rw [← Step.isStarted_of_startTime (hcreated hn), hs] at hc
          contradiction
        exact ⟨hn, (hp.entered hlive hn).trans (hstarts.since hc hs)⟩
    · rw [hothers _ hfc]
      exact hp.opened
  case closed =>
    intro hover
    rw [hlive] at hover
    contradiction

/-- The current step may be given an outcome. -/
theorem Paced.given (hp : Paced own w e) (hlive : (e.workflow w).state.isTerminal = false)
    (hc : (e.step (e.workflow w).current).isCompleted = false) {o : Outcome}
    (ha : e'.Alike (e.mapStep (e.workflow w).current (·.given o e.clock.now)))
    (hg : e.clock.GoesOn e'.clock) : Paced own w e' := by
  have hcur : own (e.workflow w).current := hk.inside _ (Workflow.current_mem_walk _)
  have hself := step_of_alike ha (hk.hasStep _ hcur)
  have hstart : (e'.step (e.workflow w).current).startTime =
      (e.step (e.workflow w).current).startTime := by
    rw [hself]
    exact Step.startTime_given ..
  refine hp.worked hk hlive hg (workflow_of_core ha.core w) (fun t ht => step_of_alike_of_ne ha ht) ?_
    (Step.startsFrom_of_startTime hstart) fun _ => hstart
  rw [hself]
  exact ((hp.timed _ hcur).given hc o).mono (hp.steady.now_le hg)

end Worked

/-! ## Where the workflow changes -/

/-- The current step comes after those that were left behind. -/
theorem Paced.successive_left (hp : Paced own w e) (hlive : (e.workflow w).state.isTerminal = false) :
    ((e.workflow w).history ++ [(e.workflow w).current]).IsChain (Predates e) := by
  refine hp.successive.append (.singleton _) fun s hs t ht => ?_
  rw [← Option.some.inj ht]
  exact hp.underway hlive s hs

section Changes

variable {f : Workflow → Workflow} (hw : e.HasWorkflow w) (ha : e'.Alike (e.mapWorkflow w f))
  (hg : e.clock.GoesOn e'.clock)
include ha

omit ha in
theorem predates_of_steps (hs : ∀ t, e'.step t = e.step t) : Predates e' = Predates e := by
  funext s t
  exact propext ⟨fun h => h.of_abreast (hs s ▸ refl _) (hs t ▸ refl _),
    fun h => h.of_abreast (hs s ▸ refl _) (hs t ▸ refl _)⟩

theorem step_of_alike_mapWorkflow (t : StepId) : e'.step t = e.step t :=
  (step_of_core ha.core t).trans (step_mapWorkflow ..)

include hw in
theorem workflow_of_alike_mapWorkflow : e'.workflow w = f (e.workflow w) := by
  rw [workflow_of_core ha.core, workflow_mapWorkflow_self _ hw]

include hw hg

/-- A workflow that is not over may come to wait or to run. It starts when it leaves its first state. -/
theorem Punctual.change (hp : Punctual own w e) (hlive : (e.workflow w).state.isTerminal = false)
    (hlive' : (f (e.workflow w)).state.isTerminal = false) (hn : (f (e.workflow w)).state ≠ .created)
    (hsame : (f (e.workflow w)).history = (e.workflow w).history ∧
      (f (e.workflow w)).current = (e.workflow w).current ∧
      (f (e.workflow w)).first = (e.workflow w).first)
    (hstart : (f (e.workflow w)).startTime =
      if (e.workflow w).state = .created then e.clock.now else (e.workflow w).startTime) :
    Punctual own w e' := by
  have hs := step_of_alike_mapWorkflow ha
  have hwf := workflow_of_alike_mapWorkflow hw ha
  have hnow := hp.steady.now_le hg
  obtain ⟨hhistory, hcurrent, hfirst⟩ := hsame
  refine ⟨⟨hp.steady.of_goesOn hg, fun t ht => ?timed, ?successive, ?underway, ?entered, ?opened, ?closed⟩,
    ?earned⟩
  case timed => exact hs t ▸ (hp.timed t ht).mono hnow
  all_goals rw [hwf]
  case successive =>
    rw [predates_of_steps hs, hhistory]
    exact hp.successive
  case underway =>
    rw [predates_of_steps hs, hhistory, hcurrent]
    exact fun _ => hp.underway hlive
  case entered =>
    rw [hstart]
    intro _ _
    split
    · exact hnow
    · rename_i hc
      exact (hp.entered hlive hc).trans hnow
  case opened =>
    rw [hfirst, hs, hstart]
    intro h
    -- The first step has not started before the workflow has, so the start of the workflow stays.
    rw [if_neg (hp.opened h).1]
    exact ⟨hn, (hp.opened h).2⟩
  case closed =>
    intro hover
    rw [hlive'] at hover
    contradiction
  case earned =>
    rw [hcurrent, hs]
    exact fun _ => hp.earned hlive

/-- A workflow ends after its current step has been completed. -/
theorem Paced.close (hp : Paced own w e) (hlive : (e.workflow w).state.isTerminal = false)
    (hcur : own (e.workflow w).current) (hc : (e.step (e.workflow w).current).isCompleted = true)
    {state : WorkflowState} (hstate : state.isTerminal = true)
    (hf : f (e.workflow w) = ((e.workflow w).left (e.workflow w).current).ended state e.clock.now) :
    Punctual own w e' := by
  have hs := step_of_alike_mapWorkflow ha
  have hwf := (workflow_of_alike_mapWorkflow hw ha).trans hf
  have hnow := hp.steady.now_le hg
  have hlive' : state.isTerminal ≠ false := by rw [hstate]; nofun
  refine ⟨⟨hp.steady.of_goesOn hg, fun t ht => ?timed, ?successive, ?underway, ?entered, ?opened, ?closed⟩,
    ?earned⟩
  case timed => exact hs t ▸ (hp.timed t ht).mono hnow
  all_goals rw [hwf]
  case successive =>
    rw [predates_of_steps hs]
    exact hp.successive_left hlive
  case underway => exact fun h => absurd h hlive'
  case entered => exact fun h => absurd h hlive'
  case earned => exact fun h => absurd h hlive'
  case opened =>
    rw [hs]
    refine fun h => ⟨fun hn => ?_, (hp.opened h).2⟩
    have hn' : state = .created := hn
    rw [hn'] at hstate
    contradiction
  case closed =>
    rw [hs]
    exact fun _ => (hp.timed _ hcur).completed hc

/-- A workflow goes on from its completed step to one that has neither started nor completed. -/
theorem Punctual.goOn (hp : Punctual own w e) (hr : (e.workflow w).state = .running)
    (hcur : own (e.workflow w).current) (hc : (e.step (e.workflow w).current).isCompleted = true)
    (hn : (e.step t).isStarted = false) (hct : (e.step t).isCompleted = false)
    (hf : f (e.workflow w) =
      ((e.workflow w).left (e.workflow w).current).moved (e.workflow w).current t) :
    Punctual own w e' := by
  have hs := step_of_alike_mapWorkflow ha
  have hwf := (workflow_of_alike_mapWorkflow hw ha).trans hf
  have hnow := hp.steady.now_le hg
  have hlive : (e.workflow w).state.isTerminal = false := by rw [hr]; rfl
  have hcreated : (e.workflow w).state ≠ .created := by rw [hr]; nofun
  have hst := hp.earned hlive hc
  refine ⟨⟨hp.steady.of_goesOn hg, fun t ht => ?timed, ?successive, ?underway, ?entered, ?opened, ?closed⟩,
    ?earned⟩
  case timed => exact hs t ▸ (hp.timed t ht).mono hnow
  all_goals rw [hwf]
  case successive =>
    rw [predates_of_steps hs]
    exact hp.successive_left hlive
  case underway =>
    -- The step that has been left behind is the last of the history, and the next one has not started.
    rw [predates_of_steps hs]
    intro _ x hx
    have hx' : ((e.workflow w).history ++ [(e.workflow w).current]).getLast? = some x := hx
    rw [List.getLast?_concat] at hx'
    obtain rfl := Option.some.inj hx'
    exact ⟨hst, (hp.timed _ hcur).ordered hc hst, fun h => absurd (hn.symm.trans h) Bool.false_ne_true⟩
  case entered => exact fun _ _ => (hp.entered hlive hcreated).trans hnow
  case opened =>
    rw [hs]
    exact fun h => ⟨hcreated, (hp.opened h).2⟩
  case closed =>
    intro hover
    have hover' : (e.workflow w).state.isTerminal = true := hover
    rw [hlive] at hover'
    contradiction
  case earned =>
    rw [hs]
    exact fun _ h => absurd (hct.symm.trans h) Bool.false_ne_true

end Changes

end Engine

end ApprovalFlow
