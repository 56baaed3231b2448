import ApprovalFlow.Proofs.ManagedChanges

/-!
# What a manager keeps tallies with its workflows

If no listener raises, what a manager keeps tallies with its workflows: each of them that is over is filed
once and no longer registered, and the queue holds the decisions for which registered workflows wait
(`Tally`). Each of the changes to which an operation comes preserves the tally.
-/

namespace ApprovalFlow.Engine

variable {σ γ : Type} {m : ManagerId} {members : WorkflowId → Prop}
  {own : WorkflowId → StepId → Prop} {w v : WorkflowId} {s t : StepId} {silent : Prop}
  {op : Operation σ γ} {e e₁ e' : Engine σ}

structure AwaitedBy (m : ManagerId) (w : WorkflowId) (s : StepId) (e : Engine σ) : Prop where
  registered : running? e m (e.workflow w).id = some w
  asks : e.Asks w
  current : (e.workflow w).current = s
  decision : (e.step s).isDecision = true

def Awaited (m : ManagerId) (e : Engine σ) (s : StepId) : Prop := ∃ w, AwaitedBy m w s e

/-- What the manager `m` keeps tallies with the workflows `members`. -/
structure Tally (m : ManagerId) (members : WorkflowId → Prop) (e : Engine σ) : Prop where
  ended : ∀ w, members w → (e.workflow w).Managed m → (e.workflow w).state.isTerminal = true →
    (∀ id, running? e m id ≠ some w) ∧ (e.desk m).finished.count w = 1
  ids : ∀ id v, running? e m id = some v → id < (e.desk m).nextId
  unnumbered : ∀ w, members w → (e.workflow w).Observed → (e.workflow w).id = 0
  queue : ∀ s, s ∈ (e.desk m).queue ↔ Awaited m e s
  nodup : (e.desk m).queue.Nodup

theorem AwaitedBy.unanswered (h : AwaitedBy m w s e) : (e.step s).isCompleted = false := by
  rw [← h.current]
  exact h.asks.unanswered

theorem AwaitedBy.live (h : AwaitedBy m w s e) : (e.workflow w).state.isTerminal = false := by
  rw [h.asks.waiting]
  rfl

/-- What is awaited depends on a workflow, its step and the register. -/
theorem AwaitedBy.transfer (h : AwaitedBy m w s e) (hw : e'.workflow w = e.workflow w)
    (hs : (e'.step s).isCompleted = false) (hd : (e'.step s).isDecision = (e.step s).isDecision)
    (hr : running? e' m (e.workflow w).id = some w) : AwaitedBy m w s e' where
  registered := by rw [hw]; exact hr
  asks := ⟨by rw [hw]; exact h.asks.waiting, by rw [hw, h.current]; exact hs⟩
  current := by rw [hw]; exact h.current
  decision := hd.trans h.decision

theorem AwaitedBy.member (h : AwaitedBy m w s e) (hr : Registry m members own e) :
    members w ∧ own w s := by
  have hw := (hr.registered _ w h.registered).1
  exact ⟨hw, h.current ▸ (hr.member w hw).current⟩

/-- Only the workflow itself waits for its steps. -/
theorem Tally.mem_queue_iff (ht : Tally m members e) (hr : Registry m members own e) (hw : members w)
    (hs : own w s) : s ∈ (e.desk m).queue ↔ AwaitedBy m w s e := by
  rw [ht.queue]
  refine ⟨fun ⟨v, hv⟩ => ?_, fun h => ⟨w, h⟩⟩
  obtain ⟨hvm, hvs⟩ := hv.member hr
  obtain rfl := hr.owner_unique hvm hw hvs hs
  exact hv

/-- No id is in use that the manager has not given yet. -/
theorem Tally.freeId (ht : Tally m members e) (op : Operation σ γ) : FreeId m e op := by
  cases op with
  | start k w context =>
    intro _ _
    cases hrun : running? e m (e.desk m).nextId with
    | none => rfl
    | some v => exact absurd (ht.ids _ v hrun) (Int.lt_irrefl _)
  | _ => trivial

/-! ## Reassigning and answering -/

theorem Reassigned.awaitedBy (ha : Reassigned m e e') : AwaitedBy m w s e' ↔ AwaitedBy m w s e := by
  have hw := ha.steady.workflow w
  have hr := ha.steady.running? (e.workflow w).id
  obtain ⟨actor, hs⟩ := ha.steps s
  have hc : (e'.step s).isCompleted = (e.step s).isCompleted := by rw [hs]; rfl
  have hd : (e'.step s).isDecision = (e.step s).isDecision := by rw [hs]; rfl
  constructor
  · intro h
    refine h.transfer hw.symm (hc ▸ h.unanswered) hd.symm ?_
    rw [hw, ← hr, ← hw]
    exact h.registered
  · exact fun h => h.transfer hw (hc.trans h.unanswered) hd (hr.trans h.registered)

/-- While workflows and the register stay as they are, only the queue has to be looked at. -/
theorem Tally.of_steady (ht : Tally m members e) (hs : Steady m e e')
    (hnext : (e'.desk m).nextId = (e.desk m).nextId)
    (hqueue : ∀ s, s ∈ (e'.desk m).queue ↔ Awaited m e' s) (hnodup : (e'.desk m).queue.Nodup) :
    Tally m members e' where
  ended w hw := by
    rw [hs.workflow, hs.finished]
    simp only [hs.running?]
    exact ht.ended w hw
  ids id v hid := by
    rw [hnext]
    exact ht.ids id v (hs.running? id ▸ hid)
  unnumbered w hw := by
    rw [hs.workflow]
    exact ht.unnumbered w hw
  queue := hqueue
  nodup := hnodup

theorem Tally.of_reassigned (ht : Tally m members e) (ha : Reassigned m e e') :
    Tally m members e' := by
  refine ht.of_steady ha.steady (by rw [ha.desk]) (fun s => ?_) (by rw [ha.desk]; exact ht.nodup)
  rw [ha.desk, ht.queue]
  exact exists_congr fun w => ha.awaitedBy.symm

/-- An answer ends the waiting if it completes the decision. -/
theorem Answered.awaitedBy (ha : Answered m s e e') :
    AwaitedBy m w t e' ↔ AwaitedBy m w t e ∧ ¬(t = s ∧ (e'.step s).isCompleted = true) := by
  have hw := ha.steady.workflow w
  have hr := ha.steady.running? (e.workflow w).id
  have hd := ha.steady.decisions t
  constructor
  · intro h
    refine ⟨h.transfer hw.symm ?_ hd.symm ?_, ?_⟩
    · by_cases hts : t = s
      · -- What is not completed now was not completed before.
        subst hts
        rw [← Bool.not_eq_true]
        intro hc
        have := (ha.self.final hc).1
        rw [h.unanswered] at this
        contradiction
      · rw [← ha.others t hts]; exact h.unanswered
    · rw [hw, ← hr, ← hw]; exact h.registered
    · rintro ⟨rfl, hc⟩
      rw [h.unanswered] at hc
      contradiction
  · rintro ⟨h, hn⟩
    refine h.transfer hw ?_ hd (hr.trans h.registered)
    by_cases hts : t = s
    · subst hts
      rw [← Bool.not_eq_true]
      exact fun hc => hn ⟨rfl, hc⟩
    · rw [ha.others t hts]; exact h.unanswered

theorem Tally.of_answered (ht : Tally m members e) (ha : Answered m s e e') : Tally m members e' := by
  refine ht.of_steady ha.steady (by rw [ha.desk]; rfl) (fun t => ?_) (by
    rw [ha.desk]
    exact ht.nodup.filter _)
  have hmem : t ∈ (e'.desk m).queue ↔
      t ∈ (e.desk m).queue ∧ ¬(t = s ∧ (e'.step s).isCompleted = true) := by
    rw [ha.desk, Desk.mem_keeping, Bool.not_eq_true', Bool.and_eq_false_iff, beq_eq_false_iff_ne, not_and,
      Bool.not_eq_true, imp_iff_not_or]
  rw [hmem, ht.queue]
  constructor
  · rintro ⟨⟨w, h⟩, hn⟩
    exact ⟨w, ha.awaitedBy.mpr ⟨h, hn⟩⟩
  · rintro ⟨w, h⟩
    obtain ⟨h, hn⟩ := ha.awaitedBy.mp h
    exact ⟨⟨w, h⟩, hn⟩

/-! ## Accepting -/

section Accepting

variable {n : Int} (ha : Accepted m w n e e') (hr : Registry m members own e)
  (hfree : ApprovalFlow.Engine.running? e m n = none) (hobs : (e.workflow w).Observed)
  (hst : (e.workflow w).state = .created)
include ha hr hfree hobs hst

theorem Accepted.awaitedBy : AwaitedBy m v s e' ↔ AwaitedBy m v s e := by
  have hc := ha.completed s
  have hd := ha.decisions s
  constructor
  · intro h
    have hvw : v ≠ w := by
      rintro rfl
      have := h.asks.waiting
      rw [ha.self] at this
      dsimp only at this
      rw [hst] at this
      contradiction
    have hw := ha.others v hvw
    refine h.transfer hw.symm (hc ▸ h.unanswered) hd.symm ?_
    have hrun := h.registered
    rw [ha.running?] at hrun
    split at hrun
    · exact absurd (Option.some.inj hrun).symm hvw
    · exact hrun
  · intro h
    have hvw := hr.ne_of_observed hobs h.registered
    refine h.transfer (ha.others v hvw) (hc.trans h.unanswered) hd ?_
    rw [ha.running?, if_neg (ne_of_registered hfree h.registered)]
    exact h.registered

theorem Accepted.tally (ht : Tally m members e) (hw : members w) : Tally m members e' := by
  -- The id comes from the counter, since the workflow brings none.
  have hid : n = (e.desk m).nextId ∧ (e'.desk m).nextId = (e.desk m).nextId + 1 := by
    rcases ha.id with ⟨-, hn, hnext⟩ | ⟨hne, -⟩
    · exact ⟨hn, hnext⟩
    · exact absurd (ht.unnumbered w hw hobs) hne
  refine
    { ended := fun v hv hm hover => ?_
      ids := fun id v hrun => ?_
      unnumbered := fun v hv ho => ?_
      queue := fun s => ?_
      nodup := by rw [ha.queue]; exact ht.nodup }
  · have hvw : v ≠ w := by
      rintro rfl
      rw [ha.self] at hover
      dsimp only at hover
      rw [hst] at hover
      contradiction
    rw [ha.others v hvw] at hm hover
    obtain ⟨hrun, hcount⟩ := ht.ended v hv hm hover
    refine ⟨fun id hid => ?_, by rw [ha.finished]; exact hcount⟩
    rw [ha.running?] at hid
    split at hid
    · exact hvw (Option.some.inj hid).symm
    · exact hrun id hid
  · rw [ha.running?] at hrun
    rw [hid.2]
    split at hrun
    · rename_i hn
      rw [← hn, hid.1]
      omega
    · have := ht.ids id v hrun
      omega
  · have hvw : v ≠ w := by
      rintro rfl
      exact ho.not_managed (ha.managed hobs)
    rw [ha.others v hvw] at ho ⊢
    exact ht.unnumbered v hv ho
  · rw [ha.queue, ht.queue]
    exact exists_congr fun v => (ha.awaitedBy hr hfree hobs hst).symm

end Accepting

/-! ## Conduct -/

section Conduct

variable (hc : Conduct silent m (own w) w e e') (hr : Registry m members own e) (hw : members w)
include hc hr hw

/-- What other workflows wait for stays as it is. -/
theorem Conduct.awaitedBy_of_ne (hv : members v) (hne : v ≠ w) :
    AwaitedBy m v s e' ↔ AwaitedBy m v s e := by
  have hwf := hc.confined.others v hne
  have hstep : (e.workflow v).current = s → e'.step s = e.step s := by
    rintro rfl
    exact hr.step_of_ne hw hc hv hne (hr.member v hv).current
  constructor
  · intro h
    have hs := hstep (hwf ▸ h.current)
    refine h.transfer hwf.symm (hs ▸ h.unanswered) (by rw [hs]) ?_
    exact hr.running_conduct hc h.registered
  · intro h
    have hs := hstep h.current
    refine h.transfer hwf (hs ▸ h.unanswered) (by rw [hs]) ?_
    exact (hr.spares_conduct hw hc hv hne.symm).running _ h.registered

/-- What is queued for other workflows stays queued. -/
theorem Conduct.queued_of_ne (hv : members v) (hne : v ≠ w) (hs : own v s) :
    s ∈ (e'.desk m).queue ↔ s ∈ (e.desk m).queue :=
  (hr.spares_conduct hw hc hv hne.symm).queue s hs

omit hr hw in
/-- While the workflow and its step are as they were, it waits for what it waited for. -/
theorem Conduct.awaitedBy_of_same (hwf : e'.workflow w = e.workflow w)
    (hcur : (e'.step (e.workflow w).current).isCompleted = (e.step (e.workflow w).current).isCompleted)
    (hrun : running? e m (e.workflow w).id = some w) (hrun' : running? e' m (e.workflow w).id = some w) :
    AwaitedBy m w s e' ↔ AwaitedBy m w s e := by
  constructor
  · intro h
    refine h.transfer hwf.symm ?_ (hc.confined.decisions s).symm (by rw [hwf]; exact hrun)
    rw [← h.current, hwf, ← hcur, ← hwf]
    exact h.asks.unanswered
  · intro h
    refine h.transfer hwf ?_ (hc.confined.decisions s) hrun'
    rw [← h.current, hcur]
    exact h.asks.unanswered

omit hr hw in
/-- A running workflow has not waited and does not wait. -/
theorem Conduct.not_awaitedBy (hstate : (e'.workflow w).state = .running) :
    ¬AwaitedBy m w s e ∧ ¬AwaitedBy m w s e' := by
  constructor
  · intro h
    rcases hc.asking h.asks with ⟨ha, -⟩ | hover
    · have := ha.waiting
      rw [hstate] at this
      contradiction
    · rw [hstate] at hover
      contradiction
  · intro h
    have := h.asks.waiting
    rw [hstate] at this
    contradiction

omit hr hw in
/-- Waiting before and after means waiting for the same step. -/
theorem Conduct.eq_current (ha : e'.Asks w) (h : AwaitedBy m w s e) : s = (e'.workflow w).current := by
  rcases hc.asking h.asks with ⟨-, hcur⟩ | hover
  · rw [hcur, h.current]
  · rw [ha.waiting] at hover
    contradiction

/-- If no listener raises, the queue has what the workflow waits for, and nothing else of it. -/
theorem Conduct.queued_self (hsil : silent) (ht : Tally m members e) (hs : own w s)
    (hrun : running? e' m (e'.workflow w).id = some w) :
    s ∈ (e'.desk m).queue ↔ AwaitedBy m w s e' := by
  have hrun₀ := hr.running_conduct hc hrun
  have hman := (hr.registered _ w hrun₀).2.1
  rw [hc.confined.id] at hrun hrun₀
  have hold := ht.mem_queue_iff hr hw hs
  cases hc.effect with
  | idle hwf hcur hd => rw [hd, hold, hc.awaitedBy_of_same hwf hcur hrun₀ hrun]
  | unheard hobs _ => exact absurd hman hobs
  | lost _ _ hraised => exact absurd hsil hraised
  | ends _ hlive _ hd =>
    rw [running?_eq, hd, Desk.get?_filed hr.keys] at hrun
    contradiction
  | runs hstate hd =>
    obtain ⟨hnot, hnot'⟩ := hc.not_awaitedBy (s := s) hstate
    rw [hd, hold]
    exact iff_of_false hnot hnot'
  | waits _ ha hdec hd =>
    rw [hd, Desk.mem_enlisted, hold]
    constructor
    · intro hmem
      -- It was queued before or has just been enlisted: either way the workflow is on it.
      obtain rfl := hmem.elim (hc.eq_current ha) id
      exact ⟨by rw [hc.confined.id]; exact hrun, ha, rfl, hdec⟩
    · exact fun h => .inr h.current.symm

/-- If no listener raises, the queue has of each registered workflow what that waits for. -/
theorem Conduct.mem_queue_iff (hsil : silent) (ht : Tally m members e) (hv : members v) (hs : own v s)
    (hrun : running? e' m (e'.workflow v).id = some v) :
    s ∈ (e'.desk m).queue ↔ AwaitedBy m v s e' := by
  by_cases hvw : v = w
  · subst hvw
    exact hc.queued_self hr hw hsil ht hs hrun
  · rw [hc.queued_of_ne hr hw hv hvw hs, ht.mem_queue_iff hr hv hs, hc.awaitedBy_of_ne hr hw hv hvw]

omit hr hw in
/-- Nobody but the workflow itself is filed. -/
theorem Conduct.count_of_ne (hne : v ≠ w) :
    (e'.desk m).finished.count v = (e.desk m).finished.count v := by
  cases hc.effect with
  | idle _ _ hd => rw [hd]
  | runs _ hd => rw [hd]
  | unheard _ hd => rw [hd]
  | waits _ _ _ hd => rw [hd]; rfl
  | lost _ _ _ _ _ hd => rw [hd]; rfl
  | ends _ _ _ hd =>
    rw [hd]
    show ((e.desk m).finished ++ [w]).count v = _
    rw [List.count_append, List.count_singleton, beq_eq_false_iff_ne.mpr hne.symm]
    rfl

/-- If no listener raises, a workflow that is over is filed, once, and no longer registered. -/
theorem Conduct.ended_self (hsil : silent) (ht : Tally m members e)
    (hman : (e.workflow w).Managed m) (hover : (e'.workflow w).state.isTerminal = true) :
    (∀ id, running? e' m id ≠ some w) ∧ (e'.desk m).finished.count w = 1 := by
  cases hlive : (e.workflow w).state.isTerminal
  case true =>
    obtain ⟨hrun, hcount⟩ := ht.ended w hw hman hlive
    refine ⟨fun id hid => hrun id (hr.running_conduct hc hid), ?_⟩
    -- It was over before, so nothing has happened to it.
    cases hc.effect with
    | idle _ _ hd => rw [hd]; exact hcount
    | runs hs hd => rw [hd]; exact hcount
    | unheard hobs _ => exact absurd hman hobs
    | waits _ ha _ hd =>
      rw [ha.waiting] at hover
      contradiction
    | ends _ hlive' => rw [hlive] at hlive'; contradiction
    | lost _ hlive' => rw [hlive] at hlive'; contradiction
  case false =>
    cases hc.effect with
    | idle hwf _ _ => rw [hwf, hlive] at hover; contradiction
    | runs hs _ => rw [hs] at hover; contradiction
    | unheard hobs _ => exact absurd hman hobs
    | lost _ _ hraised => exact absurd hsil hraised
    | waits _ ha _ _ =>
      rw [ha.waiting] at hover
      contradiction
    | ends _ _ _ hd =>
      -- It was not filed before, since it was not over.
      have hnot : w ∉ (e.desk m).finished := by
        intro hmem
        have := (hr.finished w hmem).2.2
        rw [hlive] at this
        contradiction
      refine ⟨fun id hid => ?_, ?_⟩
      · have hid₀ := (hr.registered id w (hr.running_conduct hc hid)).2.2
        rw [← hid₀, running?_eq, hd, Desk.get?_filed hr.keys] at hid
        contradiction
      · rw [hd]
        show ((e.desk m).finished ++ [w]).count w = 1
        rw [List.count_append, List.count_eq_zero.mpr hnot, List.count_singleton_self]

theorem Conduct.tally (hsil : silent) (ht : Tally m members e) : Tally m members e' := by
  have hr' := hr.of_conduct hw hc
  have hman : ∀ v, (e'.workflow v).Managed m ↔ (e.workflow v).Managed m :=
    fun v => Registry.managed_conduct hw hc
  refine
    { ended := fun v hv hm hover => ?_
      ids := fun id v hid => ?_
      unnumbered := fun v hv ho => ?_
      queue := fun s => ?_
      nodup := ?_ }
  · by_cases hvw : v = w
    · subst hvw
      exact hc.ended_self hr hw hsil ht ((hman v).mp hm) hover
    · rw [hc.confined.others v hvw] at hm hover
      obtain ⟨hrun, hcount⟩ := ht.ended v hv hm hover
      exact ⟨fun id hid => hrun id (hr.running_conduct hc hid), (hc.count_of_ne hvw).trans hcount⟩
  · have hid₀ := ht.ids id v (hr.running_conduct hc hid)
    rwa [hc.effect.nextId]
  · rw [Registry.id_conduct hw hc]
    refine ht.unnumbered v hv ?_
    by_cases hvw : v = w
    · subst hvw
      unfold Workflow.Observed at ho ⊢
      rwa [hc.confined.listeners] at ho
    · rwa [hc.confined.others v hvw] at ho
  · -- What is queued is what is awaited: for other workflows nothing changes, for this one what its
    -- conduct says.
    constructor
    · intro hs
      obtain ⟨-, v, hv, hrun, hown, -⟩ := hr'.queued s hs
      exact ⟨v, (hc.mem_queue_iff hr hw hsil ht hv hown hrun).mp hs⟩
    · rintro ⟨v, h⟩
      obtain ⟨hv, hown⟩ := h.member hr'
      exact (hc.mem_queue_iff hr hw hsil ht hv hown h.registered).mpr h
  · cases hc.effect with
    | idle _ _ hd => rw [hd]; exact ht.nodup
    | runs _ hd => rw [hd]; exact ht.nodup
    | unheard _ hd => rw [hd]; exact ht.nodup
    | ends _ _ _ hd => rw [hd]; exact ht.nodup.filter _
    | lost _ _ _ _ _ hd => rw [hd]; exact ht.nodup.filter _
    | waits _ _ _ hd => rw [hd]; exact Desk.nodup_enlisted ht.nodup _

end Conduct

/-- Whatever an operation comes to, the tally is kept if no listener raises. -/
theorem Dealing.tally (hd : Dealing silent m members own op e e') (ho : Orderly m members own e)
    (hsil : silent) (ht : Tally m members e) : Tally m members e' := by
  cases hd with
  | reassigns _ hr => exact ht.of_reassigned hr
  | answers s _ _ _ ha => exact ht.of_answered ha
  | conducts w hw _ _ hc => exact hc.tally ho.toRegistry hw hsil ht
  | decides s w e₁ _ _ hb _ ha hc =>
    have hw := (ho.registered _ w hb).1
    exact hc.tally (ho.toRegistry.of_steady ha.steady) hw hsil (ht.of_answered ha)
  | starts w n context e₁ hw hop hst ha hc =>
    obtain ⟨hobs, hcur, -⟩ := ho.newcomers w hw hst
    have hfree := ha.free (ht.freeId op) hop hst
    have hr₁ := ho.toRegistry.of_accepted ha hw hobs hcur hfree
    exact hc.tally hr₁ hw hsil (ha.tally ho.toRegistry hfree hobs hst ht hw)

end ApprovalFlow.Engine
