import ApprovalFlow.Proofs.WorkflowTimes

/-!
# One step after another

The steps of a workflow are worked on strictly one after another: a step has started and is completed before
the next one starts, and all of them within the time of the workflow (`runs_in_sequence`). Whoever completes a
step, the step that follows starts only after the workflow has gone on to it.
-/

namespace ApprovalFlow

open Act

variable {σ γ : Type}

namespace Engine

variable {h : Hooks σ γ} {own : StepId → Prop} {w : WorkflowId} {e : Engine σ}

/-- The steps of the workflow have been worked on one after another, from the start of the workflow until
its end. -/
structure Sequential (w : WorkflowId) (e : Engine σ) : Prop where
  successive : (e.workflow w).history.IsChain (Predates e)
  pairwise : (e.workflow w).history.Pairwise (Predates e)
  underway : (e.workflow w).state.isTerminal = false →
    ∀ s ∈ (e.workflow w).history.getLast?, Predates e s (e.workflow w).current
  opened : ∀ s ∈ (e.workflow w).history.head?, (e.step s).isStarted = true →
    (e.workflow w).startTime ≤ (e.step s).startTime
  closed : (e.workflow w).state.isTerminal = true →
    ∃ s, (e.workflow w).history.getLast? = some s ∧ (e.step s).endTime ≤ (e.workflow w).endTime

/-! ## Driving -/

def KeptUp (own : StepId → Prop) (w : WorkflowId) (x : Failure) (e : Engine σ) : Prop :=
  (∀ a b, x ≠ .successorCompleted a b) → Punctual own w e

section Driving

variable {context : γ} (hq : h.Quiet) (ht : h.KeepsTime) (hk : Walking (fun _ : σ => []) own w e)
  (hp : Punctual own w e)
include hq ht

/-- Telling listeners takes time at most, whether they fail or not. -/
theorem Punctual.ends_emit (hp : Punctual own w e) (kind : EventKind) :
    (emit h w kind).Ends e (fun _ => Punctual own w) (fun _ => Punctual own w) :=
  ((emit_elapses hq ht w kind).ends e).mono (fun _ _ => hp.elapsed) fun _ _ => hp.elapsed

include hk hp

/-- However a turn ends after the current step has been worked on, the times are in sequence. -/
theorem Punctual.turnEnds (hr : (e.workflow w).state = .running) :
    TurnEnds h w (e.workflow w).current e (after (fun _ => Punctual own w) (Punctual own w))
      (KeptUp own w) := by
  have hlive : (e.workflow w).state.isTerminal = false := by rw [hr]; rfl
  have hcreated : (e.workflow w).state ≠ .created := by rw [hr]; nofun
  have hcur : own (e.workflow w).current := hk.inside _ (Workflow.current_mem_walk _)
  have hw := hk.hasWorkflow
  refine ⟨fun _ _ => hp, fun _ _ => hp, ?waits, ?ends, fun _ _ _ _ hx => absurd rfl (hx _ _), ?unbound,
    ?follows⟩
  case waits =>
    intro hc _ e' he hclock
    have hp' : Punctual own w e' := hp.change hw he (hclock ▸ refl _) hlive rfl nofun ⟨rfl, rfl, rfl⟩
      (if_neg hcreated).symm
    exact (hp'.ends_emit hq ht _).mono (fun _ _ h => h) fun _ _ h _ => h
  case ends =>
    intro hc state kind hcl e' he hg
    have hover : state.isTerminal = true := by cases hcl <;> rfl
    have hp' := hp.toPaced.close hw he hg hlive hcur hc hover rfl
    exact (hp'.ends_emit hq ht _).mono (fun _ _ h => h) fun _ _ h _ => h
  case unbound =>
    -- What follows is fresh, so it is not found started.
    intro hc t hnext hct hst
    rw [(hk.fresh_next hlive hc hnext hct).unstarted] at hst
    contradiction
  case follows =>
    intro hc _ t hnext hct e' he hclock
    let e₁ := e.mapStep t (·.boundTo (e.workflow w))
    have habreast : ∀ s, Step.Abreast (e.step s) (e₁.step s) := fun s =>
      rel_step_mapStep s _ ⟨rfl, rfl, rfl, rfl⟩
    have hp₁ : Punctual own w e₁ := hp.abreast (refl _) (refl _) fun s _ => habreast s
    have hc₁ : (e₁.step (e.workflow w).current).isCompleted = true := by
      rw [(habreast _).isCompleted]
      exact hc
    -- The step that follows has not started, so it may do so from now on.
    have hn₁ : (e₁.step t).isStarted = false := by
      rw [(habreast t).isStarted]
      exact (hk.fresh_next hlive hc hnext hct).unstarted
    have hct₁ : (e₁.step t).isCompleted = false := by
      rw [(habreast t).isCompleted]
      exact hct
    exact hp₁.goOn (e := e₁) hw he (hclock ▸ refl _) hr hcur hc₁ hn₁ hct₁ rfl

/-- A turn of a running workflow keeps the times in sequence. -/
theorem Punctual.ends_turn (hr : (e.workflow w).state = .running) :
    (turn h w context).Ends e (after (fun _ => Punctual own w) (Punctual own w)) (KeptUp own w) := by
  have hlive : (e.workflow w).state.isTerminal = false := by rw [hr]; rfl
  have hcreated : (e.workflow w).state ≠ .created := by rw [hr]; nofun
  have hcur : own (e.workflow w).current := hk.inside _ (Workflow.current_mem_walk _)
  have hworked : ∀ e₁, Worked (fun _ => []) (e.workflow w).current e e₁ →
      Attended (e.workflow w).current e e₁ → Punctual own w e₁ := fun e₁ hwork hatt => by
    refine ⟨hp.toPaced.worked hk hlive hatt.clock (hwork.workflow w) hwork.others hatt.timed hatt.starts
      fun h => absurd h hcreated, ?_⟩
    rw [hwork.workflow w]
    exact fun _ => hatt.earned
  have hrun : (onlyIf (!(e.step (e.workflow w).current).isCompleted)
      (runStep h w (e.workflow w).current context)).Ends e
      (fun _ e₁ => Punctual own w e₁ ∧ Worked (fun _ => []) (e.workflow w).current e e₁)
      (KeptUp own w) := by
    rw [ends_onlyIf]
    split
    · rename_i hc
      refine ((runStep_attends hp.steady hq ht (hk.hasStep _ hcur) (hp.timed _ hcur)
        (by simpa using hc)).and ((runStep_worked _ hq h.logs_nil w context).ends e)).mono ?_ ?_
      · rintro _ e₁ ⟨⟨hatt, -⟩, hwork⟩
        exact ⟨hworked e₁ hwork hatt, hwork⟩
      · rintro _ e₁ ⟨hatt, hwork⟩ _
        exact hworked e₁ hwork hatt
    · exact ⟨hp, refl e⟩
  -- The step has been run; what is left of the turn ends it.
  unfold turn
  rw [ends_bind, ends_get, ends_bind, ends_get, ends_bind]
  refine hrun.mono (fun _ e₁ h₁ => ?_) fun _ _ h₁ => h₁
  obtain ⟨hp₁, hwork⟩ := h₁
  have hk₁ := hk.of_near (near_of_worked hwork)
  have hr₁ : (e₁.workflow w).state = .running := by rw [hwork.workflow w, hr]
  rw [ends_bind, ends_get, ← hwork.workflow w]
  exact (hp₁.turnEnds hq ht hk₁ hr₁).settles hr₁ hk₁.hasWorkflow

omit hk hp in
/-- A traversal of a running workflow keeps the times in sequence. -/
theorem ends_process_punctual
    (he : (Walking (fun _ : σ => []) own w e ∧ (e.workflow w).state = .running) ∧ Punctual own w e) :
    (process h w context).Ends e (fun _ => Punctual own w) (KeptUp own w) := by
  refine traverse_ends (P := fun e =>
    (Walking (fun _ : σ => []) own w e ∧ (e.workflow w).state = .running) ∧ Punctual own w e)
    (fun e he => ?_) (fun _ he _ => he.2) _ he
  obtain ⟨⟨hk, hr⟩, hp⟩ := he
  -- The walk goes on as well, which the next turn needs.
  have hwalks := hk.ends_turn hq h.logs_nil hr
    (F := fun x e' => (∀ a b, x ≠ .successorCompleted a b) → Walking (fun _ => []) own w e')
    (fun _ _ hk' _ => hk') (fun _ _ _ _ _ hx => absurd rfl (hx _ _)) context
  refine (hwalks.and (hp.ends_turn hq ht hk hr)).mono (fun progress e' h' => ?_) fun _ _ h' => h'.2
  cases progress with
  | stop state => exact h'.2
  | goOn => exact h'

/-- However a workflow is advanced, the times are in sequence. -/
theorem Punctual.ends_advance (context : γ) :
    (advance h w context).Ends e (fun _ => Punctual own w) (KeptUp own w) := by
  have hw := hk.hasWorkflow
  -- What comes after the workflow has been set running.
  have hruns : ∀ t kind e₁, (e.workflow w).state.isTerminal = false →
      (t = if (e.workflow w).state = .created then e.clock.now else (e.workflow w).startTime) →
      e₁.Alike (e.mapWorkflow w (·.resumed t)) → e.clock.GoesOn e₁.clock →
        (emit h w kind).Ends e₁ (fun _ e₂ => (process h w context).Ends e₂ (fun _ => Punctual own w)
          (KeptUp own w)) (KeptUp own w) := by
    intro t kind e₁ hlive hstart ha hg
    have hwf := workflow_of_alike_mapWorkflow hw ha
    have hk₁ : Walking (fun _ => []) own w e₁ :=
      (hk.change hlive (f := (·.resumed t)) rfl nofun ⟨rfl, rfl, rfl, rfl⟩).of_near
        (near_of_core ha.core (adds_of_host ha.host))
    have hp₁ : Punctual own w e₁ := hp.change hw ha hg hlive rfl nofun ⟨rfl, rfl, rfl⟩ hstart
    refine ((emit_elapses hq ht w kind).ends e₁).mono (fun _ e₂ h₂ => ?_)
      fun _ _ h₂ _ => hp₁.elapsed h₂
    refine ends_process_punctual hq ht ⟨⟨hk₁.elapsed h₂, ?_⟩, hp₁.elapsed h₂⟩
    rw [workflow_of_workflows h₂.workflows, hwf]
    rfl
  rw [advance_eq_enter, ends_bind]
  refine enter_ends (fun _ _ _ => hp) (fun _ _ => hp)
    (fun hr => ends_process_punctual hq ht ⟨⟨hk, hr⟩, hp⟩) (fun hs e₁ ha hg => ?_)
    fun hs _ e₁ ha hclock => ?_
  · exact hruns _ .started e₁ (by rw [hs]; rfl) (if_pos hs).symm ha hg
  · exact hruns _ .running e₁ (by rw [hs]; rfl) (if_neg (by rw [hs]; nofun)).symm ha (hclock ▸ refl _)

/-- A workflow ends at the time of its abort, after its current step. -/
theorem Punctual.ends_abort :
    (abort h w).Ends e (fun _ => Punctual own w) (fun _ => Punctual own w) := by
  have hcur : own (e.workflow w).current := hk.inside _ (Workflow.current_mem_walk _)
  refine abort_closes (fun _ _ => hp) fun hlive e₁ h₁ e' he hg => ?_
  -- A current step that is incomplete is aborted first; both ways it has been completed by now.
  have hpaced : Paced own w e₁ ∧ e₁.workflow w = e.workflow w ∧ e₁.HasWorkflow w ∧
      (e₁.step (e.workflow w).current).isCompleted = true := by
    split at h₁
    · rename_i hc
      subst h₁
      exact ⟨hp.toPaced, rfl, hk.hasWorkflow, hc⟩
    · rename_i hc
      refine ⟨hp.toPaced.given hk hlive (Bool.eq_false_iff.mpr hc) h₁.1 h₁.2,
        workflow_of_core h₁.1.core w, (hasWorkflow_of_core h₁.1.core w).mpr hk.hasWorkflow, ?_⟩
      rw [step_of_alike h₁.1 (hk.hasStep _ hcur)]
      rfl
  obtain ⟨hp₁, hwf₁, hw₁, hc₁⟩ := hpaced
  rw [← hwf₁] at hcur hlive hc₁
  have haborted : (e₁.workflow w).aborted e₁.clock.now =
      ((e₁.workflow w).left (e₁.workflow w).current).ended .aborted e₁.clock.now := by
    unfold Workflow.aborted
    rw [hwf₁] at hlive ⊢
    rw [if_pos (by simpa using hk.live_history hlive)]
  have hover : WorkflowState.aborted.isTerminal = true := rfl
  exact (hp₁.close hw₁ he hg hlive hcur hc₁ hover haborted).ends_emit hq ht _

end Driving

/-! ## Along a run -/

/-- The operations that drive the workflow where only its pending decision is resolved, and where whatever is
done elsewhere lets the clock go on. -/
def DrivesOn (h : Hooks σ γ) (own : StepId → Prop) (w : WorkflowId) (e : Engine σ) (op : Operation σ γ) :
    Prop :=
  Drives h (fun _ => []) own w e op ∧
    match op with
    | .resolve s _ => (e.step s).isPending = true
    | .other action => e.clock.GoesOn (action.run e).2.clock
    | _ => True

theorem Punctual.next (hq : h.Quiet) (ht : h.KeepsTime) (hk : Walking (fun _ : σ => []) own w e)
    (hp : Punctual own w e) (op : Operation σ γ) (hd : DrivesOn h own w e op) :
    Punctual own w (next h e op) := by
  unfold Engine.next
  cases op with
  | advance v context =>
    obtain ⟨⟨rfl, hx⟩, -⟩ := hd
    have ha := hp.ends_advance hq ht hk context
    show Punctual own v (next h e (.advance v context))
    rw [next_advance]
    rcases hr : (advance h v context).run e with ⟨x | st, e'⟩
    · rw [hr] at hx
      exact ha.of_error hr fun a b hab => hx a b (by rw [hab])
    · exact ha.of_ok hr
  | abort v =>
    obtain ⟨rfl, -⟩ := hd
    exact (hp.ends_abort hq ht hk).state
  | resolve s o =>
    obtain ⟨rfl, hpending⟩ := hd
    refine Ends.state ((resolve_gives _ o e).mono ?_ fun _ e' he => ?_)
    · rintro _ e' ⟨hc, -, ha, hg⟩
      -- The decision has been put to its actor, so it has started.
      have hcur : own (e.workflow w).current := hk.inside _ (Workflow.current_mem_walk _)
      have hstarted := (hp.timed _ hcur).begun (Step.isPending_eq_isBegun hc ▸ hpending)
      have hlive : (e.workflow w).state.isTerminal = false := by
        refine Bool.eq_false_iff.mpr fun hover => ?_
        rw [hk.done _ (List.mem_of_getLast? (hk.terminal.mp hover))] at hc
        contradiction
      refine ⟨hp.toPaced.given hk hlive hc ha hg, ?_⟩
      rw [show e'.workflow w = e.workflow w from workflow_of_core ha.core w,
        step_of_alike ha (hk.hasStep _ hcur)]
      exact fun _ _ => (Step.isStarted_of_startTime (Step.startTime_given ..)).trans hstarted
    · exact he ▸ hp
  | reassign s actor =>
    refine Ends.state ((reassign_gives s actor e).mono (fun _ e' h' => ?_) fun _ e' he => he ▸ hp)
    obtain ⟨-, ha, hg⟩ := h'
    refine hp.abreast hg (Workflow.eqButListeners_of_eq (workflow_of_core ha.core w)) fun t _ => ?_
    rw [step_of_core ha.core]
    exact rel_step_mapStep t _ ⟨rfl, rfl, rfl, rfl⟩
  | other action =>
    obtain ⟨helse, hg⟩ := hd
    refine hp.abreast hg helse.workflow fun t ht => ?_
    exact (helse.step (hk.own_of ht)).symm ▸ refl _
  | start | decide | decideQueued | reassignQueued => exact hd.1.elim

/-- A new workflow over steps that are as they were made has all its times before it. -/
theorem punctual_addWorkflow {e₀ : Engine σ} {key : String} {first : StepId} {owner : Option Actor}
    {id : Int} {context : Context}
    (made : (addWorkflow key first owner id context).run e₀ = (.ok w, e)) (steady : e.clock.Steady)
    (pristine : ∀ t, e₀.Leads first t → (e₀.step t).Pristine) : Punctual (e₀.Leads first) w e := by
  have ha := added_of_made made
  have hp : ∀ t, e₀.Leads first t → (e.step t).Pristine := fun t ht => by
    rw [step_of_steps ha.steps, step_mapStep]
    split
    · exact ⟨⟨(pristine t ht).created, (pristine t ht).unstarted⟩, (pristine t ht).unbegun⟩
    · exact pristine t ht
  have hn : ∀ t, e₀.Leads first t → ¬(e.step t).isStarted = true := fun t ht h =>
    absurd ((hp t ht).unstarted.symm.trans h) Bool.false_ne_true
  have hc : ∀ t, e₀.Leads first t → ¬(e.step t).isCompleted = true := fun t ht h =>
    absurd ((hp t ht).incomplete.symm.trans h) Bool.false_ne_true
  have htimed : ∀ t, e₀.Leads first t → (e.step t).Timed e.clock.now := fun t ht =>
    { started := fun h => absurd h (hn t ht)
      completed := fun h => absurd h (hc t ht)
      ordered := fun h => absurd h (hc t ht)
      begun := fun h => absurd ((hp t ht).unbegun.symm.trans h) Bool.false_ne_true }
  refine ⟨⟨steady, htimed, ?successive, ?underway, ?entered, ?opened, ?closed⟩, ?earned⟩
  all_goals rw [ha.workflow]
  case successive => exact .nil
  case underway => exact fun _ _ h => absurd h nofun
  case entered => exact fun _ h => absurd rfl h
  case opened => exact fun h => absurd h (hn first .refl)
  case closed => exact nofun
  case earned => exact fun _ h => absurd h (hc first .refl)

theorem Punctual.sequential (hk : Walking (fun _ : σ => []) own w e) (hp : Punctual own w e) :
    Sequential w e where
  successive := hp.successive
  pairwise := List.isChain_iff_pairwise.mp hp.successive
  underway := hp.underway
  opened s hs := by
    -- The first step of the history is the first step of the walk.
    have hfirst : (e.workflow w).walk.head? = some s := by
      unfold Workflow.walk
      split
      · exact hs
      · rw [List.head?_append, hs]
        rfl
    rw [hk.begins] at hfirst
    exact fun h => Option.some.inj hfirst ▸ (hp.opened (Option.some.inj hfirst ▸ h)).2
  closed hover := ⟨_, hk.terminal.mp hover, hp.closed hover⟩

/-- The steps of a workflow run strictly one after another: however it is driven, each step of its history
but the last has been started and completed before the next one was started, and all of them between the
start of the workflow and its end. -/
theorem runs_in_sequence {h : Hooks σ γ} (hq : h.Quiet) (ht : h.KeepsTime) {e₀ : Engine σ} {key : String}
    {first : StepId} {owner : Option Actor} {id : Int} {context : Context}
    (made : (addWorkflow key first owner id context).run e₀ = (.ok w, e)) (steady : e.clock.Steady)
    (pristine : ∀ t, e₀.Leads first t → e₀.HasStep t ∧ (e₀.step t).Pristine)
    {ops : List (Operation σ γ)} (hops : Along h (DrivesOn h (e₀.Leads first) w) e ops) :
    Sequential w (runs h e ops) := by
  have hk : Walking (fun _ => []) (e₀.Leads first) w e := walking_addWorkflow made fun t ht =>
    ⟨(pristine t ht).1, (pristine t ht).2.toFresh, nofun⟩
  have hp := punctual_addWorkflow made steady fun t ht => (pristine t ht).2
  -- What each operation keeps: the walk, and the times along it.
  have hrun := runs_invariant (P := fun e => Walking (fun _ => []) (e₀.Leads first) w e ∧
      Punctual (e₀.Leads first) w e)
    (fun _ op he hd => ⟨he.1.next hq h.logs_nil op hd.1, he.2.next hq ht he.1 op hd⟩) ⟨hk, hp⟩ hops
  exact hrun.2.sequential hrun.1

/-! ## A slow review -/

/-- Hooks that take their time. A task fails when it is executed for the first time. -/
def slowHooks : Hooks Bool Unit where
  starting _ := do let _ ← readClock
  execute _ _ := do
    let _ ← readClock
    let e ← get
    updateHost fun _ => true
    if e.host then return .complete else throw (.raised .business "late")
  present _ _ := do let _ ← readClock
  observe _ _ := pure ()
  room := 0

theorem quiet_slowHooks : slowHooks.Quiet where
  starting _ _ := rfl
  execute _ _ e := by
    unfold slowHooks
    refine Act.Ends.state (P := fun e' => e'.core = e.core) ?_
    rw [ends_bind, ends_readClock, ends_bind, ends_get, ends_bind]
    show Ends _ _ _ _
    split <;> rfl
  present _ _ _ := rfl
  observe _ _ _ := rfl

theorem keepsTime_slowHooks : slowHooks.KeepsTime where
  starting _ e := Clock.goesOn_tick e.clock
  execute _ _ e := by
    unfold slowHooks
    refine Act.Ends.state (P := fun e' => e.clock.GoesOn e'.clock) ?_
    rw [ends_bind, ends_readClock, ends_bind, ends_get, ends_bind]
    show Ends _ _ _ _
    split <;> exact Clock.goesOn_tick e.clock
  present _ _ e := Clock.goesOn_tick e.clock
  observe _ _ _ := refl _

theorem steady_counter {start tick : Int} (hs : 0 < start) (ht : 0 ≤ tick) :
    (Clock.counter start tick).Steady where
  monotone {m n} hmn := by
    show start + m * tick ≤ start + n * tick
    have := Int.mul_le_mul_of_nonneg_right (Int.ofNat_le.mpr hmn) ht
    omega
  timely n := by
    show start + n * tick ≠ 0
    have := Int.mul_nonneg (Int.natCast_nonneg n) ht
    omega

def slowSteps : Engine Bool := { reviewSteps with host := false }

def slowReview : Engine Bool := ((addWorkflow "report" ⟨0⟩ none 1 []).run slowSteps).2

/-- The preparation fails and is tried again; then the report is approved and published. Somebody listens. -/
def slowly : List (Operation Bool Unit) :=
  [.other (listenTo ⟨0⟩ (.observer ⟨0⟩)), .advance ⟨0⟩ (), .advance ⟨0⟩ (), .resolve ⟨1⟩ .approve,
    .advance ⟨0⟩ ()]

theorem slowReview_in_sequence :
    Along slowHooks (DrivesOn slowHooks (slowSteps.Leads ⟨0⟩) ⟨0⟩) slowReview slowly ∧
      ((runs slowHooks slowReview slowly).workflow ⟨0⟩).history.map
        (fun s => (((runs slowHooks slowReview slowly).step s).startTime,
          ((runs slowHooks slowReview slowly).step s).endTime)) = [(3, 6), (8, 10), (12, 14)] ∧
      ((runs slowHooks slowReview slowly).workflow ⟨0⟩).startTime = 1 ∧
      ((runs slowHooks slowReview slowly).workflow ⟨0⟩).endTime = 15 ∧
      Sequential ⟨0⟩ (runs slowHooks slowReview slowly) := by
  -- None of the three calls of advance finds the successor completed: the first one fails, but otherwise.
  have hlate : ((advance slowHooks ⟨0⟩ ()).run (runs slowHooks slowReview (slowly.take 1))).1 =
      .error (.raised .business "late") := by
    rfl
  have hwaits : ((advance slowHooks ⟨0⟩ ()).run (runs slowHooks slowReview (slowly.take 2))).1.toOption =
      some .waiting := by decide +kernel
  have hlast : ((advance slowHooks ⟨0⟩ ()).run (runs slowHooks slowReview (slowly.take 4))).1.toOption =
      some .completed := by decide +kernel
  have hcur : ((runs slowHooks slowReview (slowly.take 3)).workflow ⟨0⟩).current = ⟨1⟩ := by
    decide +kernel
  have hpending : ((runs slowHooks slowReview (slowly.take 3)).step ⟨1⟩).isPending = true := by
    decide +kernel
  have hops : Along slowHooks (DrivesOn slowHooks (slowSteps.Leads ⟨0⟩) ⟨0⟩) slowReview slowly := by
    refine ⟨⟨elsewhere_listenTo _ _, refl _⟩, ⟨⟨rfl, fun _ _ h => ?_⟩, trivial⟩,
      ⟨⟨rfl, fun _ _ => ?_⟩, trivial⟩, ⟨hcur.symm, hpending⟩, ⟨⟨rfl, fun _ _ => ?_⟩, trivial⟩, trivial⟩
    · cases hlate.symm.trans h
    · exact ne_error_of_toOption hwaits _
    · exact ne_error_of_toOption hlast _
  have hmade : (addWorkflow "report" ⟨0⟩ none 1 []).run slowSteps = (.ok ⟨0⟩, slowReview) := rfl
  have hsteady : slowReview.clock.Steady := steady_counter (by decide) (by decide)
  have hpristine : ∀ t ∈ [(⟨0⟩ : StepId), ⟨1⟩, ⟨2⟩], slowSteps.HasStep t ∧
      (slowSteps.step t).state = .created ∧ (slowSteps.step t).isStarted = false ∧
        (slowSteps.step t).isBegun = false := by
    decide +kernel
  refine ⟨hops, by decide +kernel, by decide +kernel, by decide +kernel,
    runs_in_sequence quiet_slowHooks keepsTime_slowHooks hmade hsteady (fun t ht => ?_) hops⟩
  have hleads : t ∈ [(⟨0⟩ : StepId), ⟨1⟩, ⟨2⟩] := Leads.mem (by decide +kernel) List.mem_cons_self ht
  obtain ⟨hs, hc, hu, hb⟩ := hpristine t hleads
  exact ⟨hs, ⟨⟨hc, hu⟩, hb⟩⟩

end Engine

end ApprovalFlow
