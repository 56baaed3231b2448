import ApprovalFlow.Proofs.StepLife

/-!
# Steps that are complete without having been started

A step may be complete though it was never started. A workflow completes one in this way only when it is
aborted; whoever answers a step may do so with any outcome that the step has. Such answers apart, every step
that is complete was started or aborted, and no workflow moves past another (`earned_iff_not_skipped`).
-/

namespace ApprovalFlow

namespace Step

structure Unstarted (st : Step) : Prop where
  startTime : st.startTime = Instant.unset
  state : st.state ≠ .started

variable {now : Instant} {t : StepId} {d : Deed} {a b : Step} {o : Outcome}

theorem New.unstarted (h : a.New) : a.Unstarted :=
  ⟨h.startTime, h.state.trans_ne nofun⟩

theorem Unstarted.of_life (ha : a.Unstarted) (h : b.life = a.life) : b.Unstarted :=
  ⟨(startTime_of_life h).trans ha.startTime, (state_of_life h).trans_ne ha.state⟩

theorem Unstarted.given (ha : a.Unstarted) (o : Outcome) (now : Instant) : (a.given o now).Unstarted := by
  refine ⟨(startTime_given a o now).trans ha.startTime, ?_⟩
  unfold Step.given
  split
  · exact nofun
  · exact ha.state

/-- Only its start starts a step. -/
theorem Turn.unstarted (ht : Turn now t d a b) (hd : d ≠ .start t) (ha : a.Unstarted) : b.Unstarted := by
  cases ht with
  | rest _ h => exact ha.of_life h
  | make _ hb => exact hb.unstarted
  | start => exact absurd rfl hd
  | answer _ h | give _ _ h => exact (ha.given _ _).of_life h
  | reassign _ h | remark h | link h =>
    refine Unstarted.of_life ?_ h
    exact ⟨ha.startTime, ha.state⟩

/-- What has begun without a start is complete. -/
theorem Unstarted.isCompleted_of_begun (ha : a.Unstarted) (hb : a.Begun) : a.isCompleted = true := by
  rcases hb with hs | hs
  · rw [isStarted, ha.startTime] at hs
    contradiction
  · have hst := ha.state
    unfold isCompleted
    cases hcase : a.state <;> simp_all

/-- Only an abort or an answer completes a step that was not started. -/
theorem Turn.completes (ht : Turn now t d a b) (hd : d ≠ .start t) (ha : a.Unstarted)
    (hb : b.isCompleted = true) :
    a.isCompleted = true ∧ b.outcome = a.outcome ∨ b.outcome.same .abort = true ∨
      ∃ o, d = .answer t o ∧ o.completion = true ∧ b.outcome = o := by
  cases ht with
  | rest _ h => exact .inl ⟨(isCompleted_of_life h).symm.trans hb, outcome_of_life h⟩
  | make _ hn =>
    rw [hn.isCompleted] at hb
    contradiction
  | start => exact absurd rfl hd
  | @answer o _ _ hc h =>
    rw [isCompleted_of_life h, isCompleted_given_eq hc] at hb
    exact .inr (.inr ⟨o, rfl, hb, (outcome_of_life h).trans (outcome_given ..)⟩)
  | give hbegun hc h =>
    -- An unstarted step that is given an outcome is being aborted, since it has not begun.
    rcases hbegun with hbegun | ho
    · rw [ha.isCompleted_of_begun hbegun] at hc
      contradiction
    · rw [outcome_of_life h, outcome_given]
      exact .inr (.inl ho)
  | reassign _ h | remark h | link h =>
    rw [isCompleted_of_life h] at hb
    exact .inl ⟨hb, (outcome_of_life h).trans rfl⟩

end Step

namespace Engine

variable {σ γ α : Type} {seen : σ → List Core} {may : StepId → Outcome → Prop} {w : WorkflowId}
  {s : StepId} {o : Outcome} {e e' : Engine σ} {trail past : List (Deed × Engine σ)}

/-- Somebody answers the step with an outcome that completes it, other than by an abort, before it has been
started. -/
def Skipped (trail : List (Deed × Engine σ)) (s : StepId) : Prop :=
  ∃ past o e', past ++ [(.answer s o, e')] <+: trail ∧ .start s ∉ deeds past ∧
    o.completion = true ∧ o.same .abort = false

/-- Along the trail the step is complete, and workflows move past it, only once it was started. An abort
completes it at any time, and workflows end at it then. -/
structure Earned (e : Engine σ) (trail : List (Deed × Engine σ)) (s : StepId) : Prop where
  complete : ∀ past, past <+: trail → ((e.reached past).step s).isCompleted = true →
    .start s ∉ deeds past → ((e.reached past).step s).outcome.same .abort = true
  previous : ∀ past w, past <+: trail → ((e.reached past).workflow w).previous = some s →
    .start s ∈ deeds past
  history : ∀ past d e' w, past ++ [(d, e')] <+: trail → (e.reached past).HasStep s →
    s ∈ (e'.workflow w).history → s ∉ ((e.reached past).workflow w).history →
      .start s ∈ deeds past ∨ ((e.reached past).step s).outcome.same .abort = true

theorem Trail.unstarted (ht : Trail seen e trail e') (hn : (e.step s).New) (hs : .start s ∉ deeds trail) :
    (e'.step s).Unstarted := by
  induction ht with
  | nil => exact hn.unstarted
  | snoc _ hd ih =>
    rw [mem_deeds_concat, not_or] at hs
    exact (hd.turn s).unstarted (Ne.symm hs.2) (ih hs.1)

theorem Skipped.mono (hs : Skipped past s) (hp : past <+: trail) : Skipped trail s := by
  obtain ⟨before, o, e₁, hb, h⟩ := hs
  exact ⟨before, o, e₁, hb.trans hp, h⟩

/-- A step that is complete, that was not started and that nobody skipped is aborted. -/
theorem Trail.aborted (ht : Trail seen e trail e') (hn : (e.step s).New) (hno : ¬Skipped trail s)
    (hc : (e'.step s).isCompleted = true) (hs : .start s ∉ deeds trail) :
    (e'.step s).outcome.same .abort = true := by
  induction ht with
  | nil =>
    rw [hn.isCompleted] at hc
    contradiction
  | @snoc past e₁ e₂ d ht hd ih =>
    rw [mem_deeds_concat, not_or] at hs
    rcases (hd.turn s).completes (Ne.symm hs.2) (ht.unstarted hn hs.1) hc with
      ⟨hc₁, ho⟩ | ho | ⟨o, rfl, ho, heq⟩
    · rw [ho]
      exact ih (fun h => hno (h.mono (List.prefix_append ..))) hc₁ hs.1
    · exact ho
    · rw [heq]
      by_contra hab
      exact hno ⟨past, o, e₂, List.prefix_refl _, hs.1, ho, Bool.eq_false_iff.mpr hab⟩

/-- A workflow goes on from a step that is complete, and not aborted. -/
theorem Did.gone (hd : Did seen (.go w s) e e') :
    (e.step s).isCompleted = true ∧ (e.step s).outcome.same .abort = false := by
  cases hd with
  | go hc ho => exact ⟨hc, ho⟩

theorem Did.left (hd : Did seen (.leave w s) e e') (hs : e.HasStep s) : (e.step s).isCompleted = true := by
  cases hd with
  | leave hc => exact hc hs

theorem Did.answered (hd : Did seen (.answer s o) e e') : e'.step s = (e.step s).given o e.clock.now := by
  cases hd with
  | answer hs h =>
    obtain ⟨-, ha, -⟩ := (setOutcome_gives _ _ e).of_ok h
    exact step_of_alike ha hs

/-- A workflow has gone on from its previous step. -/
theorem Trail.gone (ht : Trail seen e trail e') (hw : (e.workflow w).previous = none)
    (hp : (e'.workflow w).previous = some s) : ∃ past e₁, past ++ [(.go w s, e₁)] <+: trail := by
  induction ht with
  | nil =>
    rw [hw] at hp
    contradiction
  | @snoc past e₁ e₂ d ht hd ih =>
    rcases hd.framed.previous w with heq | ⟨t, rfl, heq⟩
    · obtain ⟨before, e₀, hb⟩ := ih (heq.symm.trans hp)
      exact ⟨before, e₀, hb.trans (List.prefix_append ..)⟩
    · obtain rfl : t = s := Option.some.inj (heq.symm.trans hp)
      exact ⟨past, e₂, List.prefix_refl _⟩

theorem mem_deeds_of_prefix {d : Deed} (hp : past <+: trail) (hd : d ∈ deeds past) : d ∈ deeds trail :=
  (hp.map _).mem hd

/-- A step that nobody skips is complete, and left behind, by rights. -/
theorem Trail.earned (ht : Trail seen e trail e') (hn : (e.step s).New)
    (hw : ∀ w, (e.workflow w).previous = none) (hno : ¬Skipped trail s) : Earned e trail s := by
  have hcomplete : ∀ past, past <+: trail → ((e.reached past).step s).isCompleted = true →
      .start s ∉ deeds past → ((e.reached past).step s).outcome.same .abort = true := fun past hp =>
    (ht.before hp).aborted hn fun hskip => hno (hskip.mono hp)
  refine ⟨hcomplete, fun past w hp hprev => ?_, fun past d e₁ w hp hs hin hout => ?_⟩
  · obtain ⟨before, e₁, hb⟩ := (ht.before hp).gone (hw w) hprev
    have hbefore : before <+: past := (List.prefix_append ..).trans hb
    obtain ⟨hc, ho⟩ := ((ht.before hp).did hb).gone
    refine mem_deeds_of_prefix hbefore (by_contra fun hs => ?_)
    rw [hcomplete before (hbefore.trans hp) hc hs] at ho
    contradiction
  · have hd := ht.did hp
    rcases hd.framed.history w with heq | ⟨t, rfl, heq⟩
    · exact absurd (heq ▸ hin) hout
    · rw [heq, List.mem_append, List.mem_singleton] at hin
      obtain rfl : s = t := hin.resolve_left hout
      have hpast : past <+: trail := (List.prefix_append ..).trans hp
      exact Classical.or_iff_not_imp_left.mpr (hcomplete past hpast (hd.left hs))

/-- A step that somebody skips is complete without having been started or aborted. -/
theorem Trail.not_skipped (ht : Trail seen e trail e') (he : Earned e trail s) : ¬Skipped trail s := by
  rintro ⟨past, o, e₁, hp, hs, ho, hab⟩
  have heq := (ht.did hp).answered
  have hreached : e.reached (past ++ [(.answer s o, e₁)]) = e₁ := by simp [Engine.reached]
  have hsame := he.complete _ hp
  rw [hreached, heq, Step.outcome_given, mem_deeds_concat, not_or] at hsame
  rw [hsame (Step.isCompleted_given ho _) ⟨hs, fun h => by cases h⟩] at hab
  contradiction

/-- Nobody skips a step that is only ever answered with what does not complete it or aborts it. -/
theorem Trail.unskipped (ht : Trail seen e trail e') (ha : Answers may trail) (hs : e.HasStep s)
    (hmay : ∀ o, may s o → o.completion = true → o.same .abort = true) : ¬Skipped trail s := by
  rintro ⟨past, o, e₁, hp, -, ho, hab⟩
  have hpast : past <+: trail := (List.prefix_append ..).trans hp
  rcases ha past s o e₁ hp with hm | hmade
  · rw [hmay o hm ho] at hab
    contradiction
  · exact (ht.before hpast).not_hasStep hmade hs

/-- Whatever is undertaken with an engine whose steps are new leaves a trail, on which steps are answered as
they may be, and on every trail that it may have left a step is complete and left behind by rights, unless
somebody skips it. It takes an answer to skip a step: nothing else that is done with an engine does. -/
theorem earned_iff_not_skipped {m : Act σ α} (hn : ∀ s, (e.step s).New)
    (hw : ∀ w, (e.workflow w).previous = none)
    (hm : Undertaking seen may (Enterprising seen may : Hooks σ γ → Prop) m) :
    (∃ trail, Trail seen e trail (m.run e).2 ∧ Answers may trail) ∧
      ∀ trail, Trail seen e trail (m.run e).2 → ∀ s, (Earned e trail s ↔ ¬Skipped trail s) ∧
        (Answers may trail → e.HasStep s →
          (∀ o, may s o → o.completion = true → o.same .abort = true) → Earned e trail s) :=
  ⟨hm.leaves_trail e, fun _ ht s => ⟨⟨ht.not_skipped, ht.earned (hn s) hw⟩,
    fun ha hs hmay => ht.earned (hn s) hw (ht.unskipped ha hs hmay)⟩⟩

/-! ## A decision that nobody was asked for -/

def layingOut : Act Unit Unit := do
  let d ← addDecision "Decision" "check" (some .system) [.approve] false
  let s ← addTask "Task" "print" none
  addSuccessor d .approve (some s)
  let _ ← addWorkflow "article" d none 1 []

def laidOut : Engine Unit := (layingOut.run { clock := .counter 1 1, host := () }).2

/-- The decision is approved before its workflow gets to it. The workflow goes on. -/
def rubberStamping : Act Unit Unit := do
  resolve ⟨0⟩ .approve
  let _ ← advance Hooks.idle ⟨0⟩ ()

/-- Nobody answers any step but the decision. -/
def answersCheck (s : StepId) (_ : Outcome) : Prop := s = ⟨0⟩

theorem enterprising_idle : Enterprising (fun _ => []) answersCheck (Hooks.idle : Hooks Unit Unit) :=
  .intro _ (fun _ => False) (fun _ => False.elim) (fun _ => .pure _) (fun _ _ => .pure _) (fun _ _ => .pure _)
    fun _ _ => .pure _

theorem undertaking_rubberStamping : Undertaking (fun _ => []) answersCheck
    (Enterprising (fun _ => []) answersCheck : Hooks Unit Unit → Prop) rubberStamping :=
  .bind (.resolve _ _ rfl) fun _ => .bind (.advance Hooks.idle _ () enterprising_idle) fun _ => .pure _

theorem new_laidOut : ∀ s, (laidOut.step s).New
  | ⟨0⟩ | ⟨1⟩ => ⟨rfl, rfl, rfl, rfl⟩
  | ⟨n + 2⟩ => by
    have hs : ¬laidOut.HasStep ⟨n + 2⟩ := Nat.not_lt.mpr (Nat.le_add_left 2 n)
    rw [step_of_not_hasStep hs]
    exact Step.new_default

theorem previous_laidOut : ∀ w, (laidOut.workflow w).previous = none
  | ⟨0⟩ => rfl
  | ⟨n + 1⟩ => by
    have hw : ¬laidOut.HasWorkflow ⟨n + 1⟩ := Nat.not_lt.mpr (Nat.le_add_left 1 n)
    rw [workflow_of_not_hasWorkflow hw]
    rfl

theorem timely_laidOut : laidOut.clock.Timely := by
  intro n
  show (1 : Int) + n * 1 ≠ 0
  omega

variable {trail : List (Deed × Engine Unit)}

/-- However it comes about, the workflow moves past the decision, which has not been started. -/
theorem rubberStamping_skips (ht : Trail (fun _ => []) laidOut trail (rubberStamping.run laidOut).2) :
    .start ⟨0⟩ ∉ deeds trail ∧ ¬Earned laidOut trail ⟨0⟩ := by
  have hs : .start ⟨0⟩ ∉ deeds trail := fun hs =>
    absurd ((ht.stamped timely_laidOut (new_laidOut ⟨0⟩).stamped).start.mpr hs) (by decide +kernel)
  refine ⟨hs, fun he => hs (he.previous trail ⟨0⟩ (List.prefix_refl _) ?_)⟩
  rw [ht.reached]
  decide +kernel

/-- The decision has been skipped. The task after it is complete by rights. -/
theorem rubberStamping_earned :
    (∃ trail, Trail (fun _ => []) laidOut trail (rubberStamping.run laidOut).2 ∧
      Answers answersCheck trail) ∧
      ∀ trail, Trail (fun _ => []) laidOut trail (rubberStamping.run laidOut).2 →
        Skipped trail ⟨0⟩ ∧ (Answers answersCheck trail → Earned laidOut trail ⟨1⟩) := by
  obtain ⟨hex, hall⟩ := earned_iff_not_skipped new_laidOut previous_laidOut undertaking_rubberStamping
  refine ⟨hex, fun trail ht => ⟨by_contra fun hno => ?_, fun ha => ?_⟩⟩
  · exact (rubberStamping_skips ht).2 ((hall trail ht ⟨0⟩).1.mpr hno)
  · exact (hall trail ht ⟨1⟩).2 ha (by decide) fun o (hm : _ = _) => absurd hm (by decide)

/-- Not only an abort completes a step that was not started: the decision is approved, and its workflow has
moved past it. -/
theorem rubberStamping_unearned :
    ((rubberStamping.run laidOut).2.step ⟨0⟩).outcome = .approve ∧
      ((rubberStamping.run laidOut).2.workflow ⟨0⟩).previous = some ⟨0⟩ ∧
      ∃ trail, Trail (fun _ => []) laidOut trail (rubberStamping.run laidOut).2 ∧
        .start ⟨0⟩ ∉ deeds trail ∧ ¬Earned laidOut trail ⟨0⟩ := by
  obtain ⟨trail, ht, -⟩ := undertaking_rubberStamping.leaves_trail laidOut
  exact ⟨by decide +kernel, by decide +kernel, trail, ht, rubberStamping_skips ht⟩

end Engine

end ApprovalFlow
