import ApprovalFlow.Proofs.ManagerConsistency

/-!
# Waiting for decisions

A decision that is awaited is awaited until it lapses: it is completed or its workflow is over, and then it
is never awaited again (`Dealing.awaits`, `Dealing.lapsed`). The queue loses decisions and gets new ones at
its end, so it has them in the order in which they came to be awaited (`Dealing.grows`).
-/

namespace ApprovalFlow.Engine

variable {σ γ : Type} {m : ManagerId} {members : WorkflowId → Prop}
  {own : WorkflowId → StepId → Prop} {w v : WorkflowId} {s t : StepId} {silent : Prop}
  {op : Operation σ γ} {e e₁ e' : Engine σ}

def Lapsed (w : WorkflowId) (s : StepId) (e : Engine σ) : Prop :=
  (e.step s).isCompleted = true ∨ (e.workflow w).state.isTerminal = true

theorem Lapsed.not_awaited (h : Lapsed w s e) (hr : Registry m members own e) (hw : members w)
    (hs : own w s) : ¬Awaited m e s := by
  rintro ⟨v, hv⟩
  obtain ⟨hvm, hvs⟩ := hv.member hr
  obtain rfl := hr.owner_unique hvm hw hvs hs
  rcases h with hc | hover
  · rw [hv.unanswered] at hc
    contradiction
  · rw [hv.live] at hover
    contradiction

/-! ## What has lapsed has lapsed -/

theorem Reassigned.lapsed (ha : Reassigned m e e') (h : Lapsed w s e) : Lapsed w s e' := by
  obtain ⟨actor, hs⟩ := ha.steps s
  rcases h with hc | hover
  · left
    rw [hs]
    exact hc
  · right
    rw [ha.steady.workflow]
    exact hover

theorem Answered.lapsed (ha : Answered m s e e') (h : Lapsed w t e) : Lapsed w t e' := by
  rcases h with hc | hover
  · left
    by_cases hts : t = s
    · rw [hts] at hc ⊢
      exact (ha.self.final hc).1
    · rw [ha.others t hts]
      exact hc
  · right
    rw [ha.steady.workflow]
    exact hover

theorem Accepted.lapsed {n : Int} (ha : Accepted m w n e e') (h : Lapsed v s e) : Lapsed v s e' := by
  rcases h with hc | hover
  · left
    rw [ha.completed]
    exact hc
  · right
    by_cases hvw : v = w
    · rw [hvw] at hover ⊢
      rw [ha.self]
      exact hover
    · rw [ha.others v hvw]
      exact hover

theorem Conduct.lapsed (hc : Conduct silent m (own w) w e e') (h : Lapsed v s e) : Lapsed v s e' := by
  rcases h with hs | hover
  · exact .inl (hc.confined.final s hs)
  · right
    by_cases hvw : v = w
    · rw [hvw] at hover ⊢
      rw [hc.live hover]
      exact hover
    · rw [hc.confined.others v hvw]
      exact hover

theorem Dealing.lapsed (hd : Dealing silent m members own op e e') (h : Lapsed v s e) :
    Lapsed v s e' := by
  cases hd with
  | reassigns _ hr => exact hr.lapsed h
  | conducts _ _ _ _ hc => exact hc.lapsed h
  | answers _ _ _ _ ha => exact ha.lapsed h
  | decides _ _ _ _ _ _ _ ha hc => exact hc.lapsed (ha.lapsed h)
  | starts _ _ _ _ _ _ _ ha hc => exact hc.lapsed (ha.lapsed h)

/-! ## What is awaited is awaited until it lapses -/

theorem Answered.awaits (ha : Answered m s e e') (h : AwaitedBy m w t e) :
    AwaitedBy m w t e' ∨ Lapsed w t e' := by
  by_cases hdone : t = s ∧ (e'.step s).isCompleted = true
  · obtain ⟨rfl, hc⟩ := hdone
    exact .inr (.inl hc)
  · exact .inl (ha.awaitedBy.mpr ⟨h, hdone⟩)

theorem Conduct.awaits (hc : Conduct silent m (own w) w e e') (hr : Registry m members own e)
    (hw : members w) (h : AwaitedBy m v s e) : AwaitedBy m v s e' ∨ Lapsed v s e' := by
  obtain ⟨hv, -⟩ := h.member hr
  by_cases hvw : v = w
  · subst hvw
    rcases hc.asking h.asks with ⟨ha, hcur⟩ | hover
    · left
      have hman := (hr.registered _ v h.registered).2.1
      have hlive : (e'.workflow v).state.isTerminal = false := by rw [ha.waiting]; rfl
      exact
        { registered := hr.live_conduct hw hc ((Registry.managed_conduct hw hc).mpr hman) hlive
          asks := ha
          current := hcur.trans h.current
          decision := (hc.confined.decisions s).trans h.decision }
    · exact .inr (.inr hover)
  · exact .inl ((hc.awaitedBy_of_ne hr hw hv hvw).mpr h)

theorem Dealing.awaits (hd : Dealing silent m members own op e e') (ho : Orderly m members own e)
    (ht : Tally m members e) (h : AwaitedBy m v s e) : AwaitedBy m v s e' ∨ Lapsed v s e' := by
  cases hd with
  | reassigns _ hr => exact .inl (hr.awaitedBy.mpr h)
  | answers _ _ _ _ ha => exact ha.awaits h
  | conducts w hw _ _ hc => exact hc.awaits ho.toRegistry hw h
  | decides s w e₁ _ _ hb _ ha hc =>
    have hw := (ho.registered _ w hb).1
    rcases ha.awaits h with h₁ | hl
    · exact hc.awaits (ho.toRegistry.of_steady ha.steady) hw h₁
    · exact .inr (hc.lapsed hl)
  | starts w n context e₁ hw hop hst ha hc =>
    obtain ⟨hobs, hcur, -⟩ := ho.newcomers w hw hst
    have hfree := ha.free (ht.freeId op) hop hst
    have hr₁ := ho.toRegistry.of_accepted ha hw hobs hcur hfree
    exact hc.awaits hr₁ hw ((ha.awaitedBy ho.toRegistry hfree hobs hst).mpr h)

/-! ## The queue grows at its end -/

/-- Some decisions may have left the queue, and at most one has come to its end. -/
def Grows (q q' : List StepId) : Prop :=
  ∃ kept new, q' = kept ++ new ∧ kept.Sublist q ∧ new.length ≤ 1 ∧ ∀ s ∈ new, s ∉ q

theorem grows_of_sublist {q q' : List StepId} (h : q'.Sublist q) : Grows q q' :=
  ⟨q', [], (List.append_nil q').symm, h, Nat.zero_le 1, nofun⟩

theorem Desk.grows_enlisted (d : Desk) (s : StepId) : Grows d.queue (d.enlisted s).queue := by
  unfold Desk.enlisted
  dsimp only
  split
  · exact grows_of_sublist (List.Sublist.refl _)
  · rename_i hs
    refine ⟨d.queue, [s], rfl, List.Sublist.refl _, Nat.le_refl 1, fun t ht hmem => hs ?_⟩
    rw [List.mem_singleton.mp ht] at hmem
    exact List.contains_iff_mem.mpr hmem

theorem Conduct.grows (hc : Conduct silent m (own w) w e e') :
    Grows (e.desk m).queue (e'.desk m).queue := by
  cases hc.effect with
  | idle _ _ hd => rw [hd]; exact grows_of_sublist (List.Sublist.refl _)
  | runs _ hd => rw [hd]; exact grows_of_sublist (List.Sublist.refl _)
  | unheard _ hd => rw [hd]; exact grows_of_sublist (List.Sublist.refl _)
  | ends _ _ _ hd => rw [hd]; exact grows_of_sublist List.filter_sublist
  | lost _ _ _ _ _ hd => rw [hd]; exact grows_of_sublist List.filter_sublist
  | waits _ _ _ hd => rw [hd]; exact Desk.grows_enlisted _ _

theorem Dealing.grows (hd : Dealing silent m members own op e e') (ht' : Tally m members e') :
    Grows (e.desk m).queue (e'.desk m).queue := by
  cases hd with
  | reassigns _ hr => rw [hr.desk]; exact grows_of_sublist (List.Sublist.refl _)
  | answers _ _ _ _ ha => rw [ha.desk]; exact grows_of_sublist List.filter_sublist
  | conducts _ _ _ _ hc => exact hc.grows
  | starts _ _ _ _ _ _ _ ha hc => rw [← ha.queue]; exact hc.grows
  | decides s w e₁ _ _ _ _ ha hc =>
    -- The answer takes decisions out of the queue, then the workflow may put one in.
    obtain ⟨kept, new, hq, hkept, hnew, hn⟩ := hc.grows
    have hfilter : (e₁.desk m).queue = (e.desk m).queue.filter
        fun t => !(t == s && (e₁.step s).isCompleted) := by
      rw [ha.desk]
      rfl
    refine ⟨kept, new, hq, hkept.trans (hfilter ▸ List.filter_sublist), hnew, fun t ht hmem => ?_⟩
    -- What comes to the queue is not completed, so it has not just left the queue.
    have hmem' : t ∈ (e'.desk m).queue := by
      rw [hq]
      exact List.mem_append_right _ ht
    obtain ⟨v, hv⟩ := (ht'.queue t).mp hmem'
    refine hn t ht ?_
    rw [hfilter, List.mem_filter]
    refine ⟨hmem, ?_⟩
    by_cases hts : t = s
    · have hopen : (e₁.step s).isCompleted = false := by
        rw [← Bool.not_eq_true]
        intro hc₁
        have := hc.confined.final s hc₁
        rw [← hts, hv.unanswered] at this
        contradiction
      rw [hopen, Bool.and_false]
      rfl
    · rw [beq_eq_false_iff_ne.mpr hts]
      rfl

end ApprovalFlow.Engine
