import ApprovalFlow.Proofs.Transparency
import ApprovalFlow.Proofs.OperationTrails

/-!
# The life of a step

Along a trail a step only goes forward: it is created, started at most once and completed at most once, and
what it has become by then stays (`Trail.lifelong`). It is complete exactly while its outcome is one that
completes. The times on the step say the same as the trail, as long as the clock does not read the instant
that stands for no time. By `Undertaking.leaves_trail` all this holds however the engine is called.
-/

namespace ApprovalFlow

inductive StepState.Moves : StepState → StepState → Prop
  | start : Moves .created .started
  | complete : Moves .started .completed
  | completeAtOnce : Moves .created .completed

theorem StepState.Moves.trans {a b c : StepState} (h : Moves a b) (h' : Moves b c) : Moves a c := by
  cases h <;> cases h'
  exact .completeAtOnce

namespace Step

structure Ages (a b : Step) : Prop where
  state : b.state = a.state ∨ a.state.Moves b.state
  final : a.isCompleted = true → b.state = a.state ∧ b.outcome = a.outcome ∧ b.startTime = a.startTime ∧
    b.endTime = a.endTime ∧ b.actor = a.actor
  errors : a.errors <+: b.errors

/-- The step is complete exactly while its outcome completes it. -/
def Settled (st : Step) : Prop := st.isCompleted = st.outcome.completion

/-- The times on the step say whether it has been started and whether it is complete. -/
structure Stamped (started : Prop) (st : Step) : Prop where
  start : st.isStarted = true ↔ started
  completion : st.isCompleted = true ↔ st.endTime ≠ Instant.unset

variable {now : Instant} {t : StepId} {d : Deed} {a b : Step}

theorem isCompleted_of_life (h : b.life = a.life) : b.isCompleted = a.isCompleted := by
  unfold isCompleted
  rw [state_of_life h]

theorem New.isCompleted (h : a.New) : a.isCompleted = false := by
  unfold Step.isCompleted
  rw [h.state]
  rfl

theorem New.settled (h : a.New) : a.Settled := h.isCompleted.trans h.outcome.symm

theorem New.stamped (h : a.New) : a.Stamped False where
  start := by
    unfold isStarted
    rw [h.startTime]
    simp
  completion := by
    rw [h.isCompleted, h.endTime]
    simp

/-! ## One deed -/

theorem ages_refl (a : Step) : Ages a a := ⟨.inl rfl, fun _ => ⟨rfl, rfl, rfl, rfl, rfl⟩, List.prefix_refl _⟩

theorem Ages.of_life {c : Step} (ha : Ages a b) (h : c.life = b.life) : Ages a c where
  state := by
    rw [state_of_life h]
    exact ha.state
  final hc := by
    rw [state_of_life h, outcome_of_life h, startTime_of_life h, endTime_of_life h, actor_of_life h]
    exact ha.final hc
  errors := by
    rw [errors_of_life h]
    exact ha.errors

/-- Until it is complete, a step may become all that its state allows. -/
theorem ages_of_incomplete (hc : a.isCompleted = false) (hs : b.state = a.state ∨ a.state.Moves b.state)
    (he : b.errors = a.errors) : Ages a b where
  state := hs
  final hd := by
    rw [hc] at hd
    contradiction
  errors := he ▸ List.prefix_refl _

theorem ages_given (hc : a.isCompleted = false) (o : Outcome) (now : Instant) : Ages a (a.given o now) := by
  unfold given
  split
  · refine ages_of_incomplete hc (.inr ?_) rfl
    show a.state.Moves .completed
    cases ha : a.state with
    | created => exact .completeAtOnce
    | started => exact .complete
    | completed =>
      rw [isCompleted, ha] at hc
      contradiction
  · exact ages_of_incomplete hc (.inl rfl) rfl

theorem ages_started (hc : a.state = .created) (now : Instant) :
    Ages a { a with state := .started, startTime := now } := by
  refine ages_of_incomplete ?_ (.inr ?_) rfl
  · rw [isCompleted, hc]
    rfl
  · rw [hc]
    exact .start

theorem ages_reassigned (hc : a.isCompleted = false) (actor : Option Actor) : Ages a { a with actor } :=
  ages_of_incomplete hc (.inl rfl) rfl

theorem ages_remarked (a : Step) (text : String) : Ages a { a with errors := a.errors ++ [text] } :=
  ⟨.inl rfl, fun _ => ⟨rfl, rfl, rfl, rfl, rfl⟩, List.prefix_append ..⟩

theorem ages_linked (a : Step) (o : Outcome) (target : Option StepId) : Ages a (a.withSuccessor o target) :=
  ⟨.inl rfl, fun _ => ⟨rfl, rfl, rfl, rfl, rfl⟩, List.prefix_refl _⟩

/-- What is done to a step ages it. -/
theorem Turn.ages (ht : Turn now t d a b) : Ages a b := by
  cases ht with
  | rest _ h => exact (ages_refl a).of_life h
  | make ha hb =>
    subst ha
    exact ⟨.inl hb.state, nofun, List.nil_prefix⟩
  | start _ hc h => exact (ages_started hc now).of_life h
  | answer hc h | give _ hc h => exact (ages_given hc _ _).of_life h
  | reassign hc h => exact (ages_reassigned hc _).of_life h
  | remark h => exact (ages_remarked a _).of_life h
  | link h => exact (ages_linked a _ _).of_life h

theorem Settled.of_life (hs : a.Settled) (h : b.life = a.life) : b.Settled := by
  unfold Settled
  rw [isCompleted_of_life h, outcome_of_life h]
  exact hs

theorem settled_given (hc : a.isCompleted = false) (o : Outcome) (now : Instant) :
    (a.given o now).Settled := by
  rw [Settled, isCompleted_given_eq hc, outcome_given]

/-- The outcome and the state change together. -/
theorem Turn.settled (ht : Turn now t d a b) (hs : a.Settled) : b.Settled := by
  cases ht with
  | rest _ h => exact hs.of_life h
  | remark h | link h | reassign _ h =>
    refine Settled.of_life ?_ h
    exact hs
  | make _ hb => exact hb.settled
  | start _ hc h =>
    -- A step that is not complete has an outcome that does not complete it.
    refine Settled.of_life ?_ h
    rw [Settled, isCompleted, hc] at hs
    exact hs
  | answer hc h | give _ hc h => exact Settled.of_life (settled_given hc _ _) h

section Stamped

variable {started : Prop}

theorem Stamped.of_life (hs : a.Stamped started) (h : b.life = a.life) : b.Stamped started where
  start := by
    unfold isStarted
    rw [startTime_of_life h]
    exact hs.start
  completion := by
    rw [isCompleted_of_life h, endTime_of_life h]
    exact hs.completion

theorem Stamped.given (hs : a.Stamped started) (hnow : now ≠ Instant.unset) (o : Outcome) :
    (a.given o now).Stamped started := by
  unfold Step.given
  split
  · exact ⟨hs.start, ⟨fun _ => hnow, fun _ => rfl⟩⟩
  · exact ⟨hs.start, hs.completion⟩

/-- A deed is stamped on the step, at a time that shows. -/
theorem Turn.stamped (ht : Turn now t d a b) (hnow : now ≠ Instant.unset) (hs : a.Stamped started) :
    b.Stamped (started ∨ d = .start t) := by
  have hnot : d ≠ .start t → b.Stamped started → b.Stamped (started ∨ d = .start t) := fun hd hb =>
    ⟨hb.start.trans (by simp [hd]), hb.completion⟩
  cases ht with
  | rest hd h => exact hnot hd (hs.of_life h)
  | make ha hb =>
    subst ha
    have hno : ¬started := fun h => absurd (hs.start.mpr h) (by decide)
    refine hnot (by simp) ⟨?_, hb.stamped.completion⟩
    rw [hb.stamped.start]
    simp [hno]
  | start _ hc h =>
    have hstart : ({ a with state := .started, startTime := now } : Step).Stamped True := by
      refine ⟨by simpa [isStarted] using hnow, ?_⟩
      have := hs.completion
      rw [isCompleted, hc] at this
      exact this
    have := hstart.of_life h
    exact ⟨this.start.trans (by simp), this.completion⟩
  | answer _ h | give _ _ h => exact hnot (by simp) ((hs.given hnow _).of_life h)
  | reassign _ h | remark h | link h =>
    refine hnot (by simp) (Stamped.of_life ?_ h)
    exact ⟨hs.start, hs.completion⟩

end Stamped

theorem Ages.isCompleted {c : Step} (h : Ages a c) (ha : a.isCompleted = true) : c.isCompleted = true := by
  unfold Step.isCompleted
  rw [(h.final ha).1]
  exact ha

theorem Ages.trans {c : Step} (h : Ages a b) (h' : Ages b c) : Ages a c where
  state := by
    rcases h.state, h'.state with ⟨hb | hb, hc | hc⟩
    · exact .inl (hc.trans hb)
    · exact .inr (hb ▸ hc)
    · exact .inr (hc ▸ hb)
    · exact .inr (hb.trans hc)
  final ha := by
    obtain ⟨hs, ho, hst, he, hact⟩ := h.final ha
    obtain ⟨hs', ho', hst', he', hact'⟩ := h'.final (h.isCompleted ha)
    exact ⟨hs'.trans hs, ho'.trans ho, hst'.trans hst, he'.trans he, hact'.trans hact⟩
  errors := h.errors.trans h'.errors

/-- A step that starts was only created before, and is not so again. -/
theorem Turn.started (ht : Turn now t (.start t) a b) : a.state = .created ∧ b.state ≠ .created := by
  cases ht with
  | rest hd => exact absurd rfl hd
  | start _ hc h =>
    have hb : b.state = .started := state_of_life h
    exact ⟨hc, hb.trans_ne nofun⟩

theorem Ages.state_ne (h : Ages a b) (ha : a.state ≠ .created) : b.state ≠ .created := by
  intro hb
  rcases h.state with hs | hs
  · exact ha (hs.symm.trans hb)
  · rw [hb] at hs
    generalize a.state = before at hs
    cases hs

end Step

namespace Engine

variable {σ γ α : Type} {seen : σ → List Core} {may : StepId → Outcome → Prop} {s : StepId} {d : Deed}
  {e e' e'' : Engine σ}
  {trail : List (Deed × Engine σ)}

/-! ## What a trail makes of a step -/

theorem Trail.ages (ht : Trail seen e trail e') (s : StepId) : (e.step s).Ages (e'.step s) := by
  induction ht with
  | nil => exact Step.ages_refl _
  | snoc _ hd ih => exact ih.trans (hd.turn s).ages

theorem Trail.settled (ht : Trail seen e trail e') (hs : (e.step s).Settled) : (e'.step s).Settled := by
  induction ht with
  | nil => exact hs
  | snoc _ hd ih => exact (hd.turn s).settled ih

theorem Trail.reading (ht : Trail seen e trail e') : e'.clock.reading = e.clock.reading := by
  induction ht with
  | nil => rfl
  | snoc _ hd ih => exact hd.framed.reading.trans ih

theorem Trail.stamped (ht : Trail seen e trail e') (hk : e.clock.Timely) (hs : (e.step s).Stamped False) :
    (e'.step s).Stamped (.start s ∈ deeds trail) := by
  induction ht with
  | nil => exact ⟨hs.start.trans (by simp [deeds]), hs.completion⟩
  | snoc ht hd ih =>
    have hnow : ∀ n, _ ≠ Instant.unset := fun n => congrFun ht.reading n ▸ hk n
    rw [mem_deeds_concat, eq_comm (a := Deed.start s)]
    exact (hd.turn s).stamped (hnow _) ih

/-- A step that was started is not merely created. -/
theorem Trail.state_ne_of_mem (ht : Trail seen e trail e') (hs : .start s ∈ deeds trail) :
    (e'.step s).state ≠ .created := by
  induction ht with
  | nil => exact absurd hs List.not_mem_nil
  | snoc _ hd ih =>
    rcases mem_deeds_concat.mp hs with hs | rfl
    · exact (hd.turn s).ages.state_ne (ih hs)
    · exact (hd.turn s).started.2

/-- A step starts at most once. -/
theorem Trail.count_start_le (ht : Trail seen e trail e') (s : StepId) :
    (deeds trail).count (.start s) ≤ 1 := by
  induction ht with
  | nil => exact Nat.zero_le _
  | @snoc trail _ _ d ht hd ih =>
    rw [deeds, List.map_append, List.count_append]
    by_cases hds : d = .start s
    · subst hds
      have hnot : .start s ∉ deeds trail := fun hm => ht.state_ne_of_mem hm (hd.turn s).started.1
      rw [deeds] at hnot
      rw [List.count_eq_zero.mpr hnot]
      simp
    · simpa [hds, deeds] using ih

/-! ## The life of a step along a trail -/

/-- How the life of a step goes along a trail. -/
structure Lifelong (e : Engine σ) (trail : List (Deed × Engine σ)) (s : StepId) : Prop where
  ages : ∀ past later, past <+: later → later <+: trail →
    ((e.reached past).step s).Ages ((e.reached later).step s)
  settled : ∀ past, past <+: trail → ((e.reached past).step s).Settled
  startsOnce : (deeds trail).count (.start s) ≤ 1
  startsFirst : ∀ past e', past ++ [(.start s, e')] <+: trail → ((e.reached past).step s).state = .created
  stamped : e.clock.Timely → ∀ past, past <+: trail →
    ((e.reached past).step s).Stamped (.start s ∈ deeds past)

/-- Along every trail on which steps are made as steps are made, their lives go forward. -/
theorem Trail.lifelong (ht : Trail seen e trail e') (hn : (e.step s).New) : Lifelong e trail s where
  ages past later hp hl := by
    obtain ⟨between, rfl⟩ := hp
    exact (ht.before hl).split.2.ages s
  settled past hp := (ht.before hp).settled hn.settled
  startsOnce := ht.count_start_le s
  startsFirst past e₁ hp := ((ht.did hp).turn s).started.1
  stamped hk past hp := (ht.before hp).stamped hk hn.stamped

/-- Whatever is undertaken with an engine whose steps are new leaves a trail, and on every trail that it may
have left, which is one along what was seen of it, the life of every step goes forward. -/
theorem lives_go_forward {m : Act σ α} (hn : ∀ s, (e.step s).New)
    (hm : Undertaking seen may (Enterprising seen may : Hooks σ γ → Prop) m) :
    (∃ trail, Trail seen e trail (m.run e).2) ∧
      ∀ trail, Trail seen e trail (m.run e).2 →
        seen (m.run e).2.host = seen e.host ++ looks trail ∧ ∀ s, Lifelong e trail s :=
  ⟨(hm.leaves_trail e).imp fun _ h => h.1, fun _ ht => ⟨ht.seen_eq, fun s => ht.lifelong (hn s)⟩⟩

/-! ## A task that meddles -/

def peek : Act (List Core) Unit := modify fun e => { e with host := e.host ++ [e.core] }

def lookingHooks : Hooks (List Core) Unit where
  starting _ := peek
  execute _ _ := do
    peek
    return .complete
  present _ _ := peek
  observe _ _ := peek
  room := 0

/-- Hooks by which a task starts itself once more, completes itself and advances its workflow, before it
results in an outcome that it does not have. -/
def meddlingHooks : Hooks (List Core) Unit :=
  { lookingHooks with
    execute := fun s _ => do
      tryCatch (start lookingHooks s) fun _ => peek
      setOutcome s .complete
      let _ ← advance lookingHooks ⟨0⟩ ()
      return .approve }

def meddling : Act (List Core) Unit := do
  let s ← addTask "Task" "write" none
  let d ← addDecision "Decision" "check" (some .system) [.approve] false
  setSuccessor s (some d)
  let w ← addWorkflow "article" s none 1 []
  tryCatch (do let _ ← advance meddlingHooks w ()) fun _ => peek
  resolve d .approve
  peek
  tryCatch (resolve d .approve) fun _ => peek

def anyAnswer (_ : StepId) (_ : Outcome) : Prop := True

def unmeddled : Engine (List Core) := { clock := .counter 1 1, host := [] }

theorem looked_peek : (peek : Act (List Core) Unit).Always (Looked id) := fun _ => ⟨rfl, rfl, rfl⟩

theorem enterprising_lookingHooks : Enterprising id anyAnswer lookingHooks :=
  .intro _ (fun _ => False) (fun _ => False.elim) (fun _ => .look looked_peek)
    (fun _ _ => .bind (.look looked_peek) fun _ => .pure _) (fun _ _ => .look looked_peek)
    fun _ _ => .look looked_peek

theorem enterprising_meddlingHooks : Enterprising id anyAnswer meddlingHooks := by
  refine .intro _ (· = lookingHooks) (fun _ hb => hb ▸ enterprising_lookingHooks)
    (fun _ => .look looked_peek) (fun s _ => ?_) (fun _ _ => .look looked_peek)
      fun _ _ => .look looked_peek
  exact .bind (.tryCatch (.start lookingHooks s rfl) fun _ => .look looked_peek) fun _ =>
    .bind (.setOutcome s _ trivial) fun _ => .bind (.advance lookingHooks _ _ rfl) fun _ => .pure _

theorem undertaking_meddling :
    Undertaking id anyAnswer (Enterprising id anyAnswer : Hooks (List Core) Unit → Prop) meddling := by
  refine .bind (.addTask ..) fun s => .bind (.addDecision ..) fun d => .bind (.setSuccessor s _) fun _ =>
    .bind (.addWorkflow ..) fun w => .bind (.tryCatch ?_ fun _ => .look looked_peek) fun _ =>
      .bind (.resolve d _ trivial) fun _ => .bind (.look looked_peek) fun _ =>
        .tryCatch (.resolve d _ trivial) fun _ => .look looked_peek
  exact .bind (.advance meddlingHooks w () enterprising_meddlingHooks) fun _ => .pure _

theorem new_unmeddled (s : StepId) : (unmeddled.step s).New :=
  step_of_not_hasStep (e := unmeddled) (s := s) (Nat.not_lt_zero _) ▸ Step.new_default

/-- The lives of the meddling task and of the decision after it go forward, and so they were seen to. -/
theorem meddling_goes_forward :
    ((∃ trail, Trail id unmeddled trail (meddling.run unmeddled).2) ∧
      ∀ trail, Trail id unmeddled trail (meddling.run unmeddled).2 →
        (meddling.run unmeddled).2.host = [] ++ looks trail ∧ ∀ s, Lifelong unmeddled trail s) ∧
      (meddling.run unmeddled).2.host.map (fun c => c.steps.toList.map (·.state)) =
        [[.created, .created], [.started, .created], [.started, .created], [.completed, .created],
          [.completed, .started], [.completed, .started], [.completed, .completed],
          [.completed, .completed]] :=
  ⟨lives_go_forward new_unmeddled undertaking_meddling, by decide +kernel⟩

end Engine

end ApprovalFlow
