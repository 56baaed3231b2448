import ApprovalFlow.Proofs.GlobalRelations

/-!
# Outcomes that stand for each other

What is compared of two outcomes is their key; but whether an outcome completes its step is read from the
outcome itself. So outcomes with one key can take each other's place in every operation exactly if they
agree in that, too (`interchangeable_iff`).
-/

namespace ApprovalFlow

def Outcome.keyOnly (o : Outcome) : Outcome := ⟨o.key, "", false, false⟩

def Successor.byKey (x : Successor) : Successor := { x with outcome := x.outcome.keyOnly }

def Step.byKey (st : Step) : Step :=
  { st with outcome := st.outcome.keyOnly, successors := st.successors.map Successor.byKey }

theorem Step.isCompleted_byKey (st : Step) : st.byKey.isCompleted = st.isCompleted := rfl

variable {σ γ : Type}

/-- Outcomes with one key that both complete their step, or neither; the rest is equal, but for what `ρ`
makes of the hosts. -/
def Likeness.twins (ρ : σ → σ → Prop) : Likeness σ σ where
  outcome o o' := o.key = o'.key ∧ o.completion = o'.completion
  time := Eq
  beyond a a' := a.clock = a'.clock ∧ a.errors = a'.errors ∧ ρ a.host a'.host
  outcome_refl _ := ⟨rfl, rfl⟩
  key h := h.1
  completion h := h.2
  unset h := h.congr_left
  now h := congrArg Clock.now h.1
  tick h := ⟨congrArg Clock.tick h.1, h.2⟩

def Hooks.returning (a b : Outcome) (h : Hooks σ γ) : Hooks σ γ :=
  { h with
    execute := fun s c => do
      let o ← h.execute s c
      return if o = a then b else o }

namespace Engine

open Act

/-- The engines show the same if outcomes are compared by key. -/
structure Coincide (e e' : Engine σ) : Prop where
  steps : ∀ s, (e.step s).byKey = (e'.step s).byKey
  workflows : ∀ w, e.workflow w = e'.workflow w
  queues : e.queues = e'.queues
  managers : e.managers = e'.managers
  contexts : e.contexts = e'.contexts

def Indistinct {α : Type} (m m' : Act σ α) (e : Engine σ) : Prop :=
  (m.run e).1 = (m'.run e).1 ∧ Coincide (m.run e).2 (m'.run e).2

/-- The outcome `b` may take the place of `a` in any call, or as what a hook returns, in every engine and
with all hooks that tell outcomes apart by key and completion at most. -/
def Interchangeable (a b : Outcome) : Prop :=
  ∀ {σ γ : Type} (ρ : σ → σ → Prop) (h : Hooks σ γ), (∀ d, ρ d d) → h.Matches (.twins ρ) h →
    ∀ e : Engine σ,
      (∀ s, Indistinct (setOutcome s a) (setOutcome s b) e) ∧
      (∀ s, Indistinct (resolve s a) (resolve s b) e) ∧
      (∀ s target, Indistinct (addSuccessor s a target) (addSuccessor s b target) e) ∧
      (∀ q s actor, Indistinct (decideQueued h q s a actor) (decideQueued h q s b actor) e) ∧
      (∀ m s actor c, Indistinct (decide h m s a actor c) (decide h m s b actor c) e) ∧
      (∀ w c, Indistinct (advance h w c) (advance (h.returning a b) w c) e) ∧
      (∀ m w c, Indistinct (startManaged h m w c) (startManaged (h.returning a b) m w c) e) ∧
      (∀ m s o actor c, Indistinct (decide h m s o actor c) (decide (h.returning a b) m s o actor c) e)

/-! ## Operations with hooks that match -/

section Matching

variable {ρ : σ → σ → Prop} {h h' : Hooks σ γ} {w : WorkflowId} {s : StepId} {m : ManagerId}
  {context : γ} {e e' : Engine σ}

theorem takesErrors_twins : TakesErrors (fun _ => True) (Like (.twins ρ)) :=
  takesErrors_like (L := .twins ρ) (fun hb => hb.2.1) fun _ hb => ⟨hb.1, rfl, hb.2.2⟩

variable (hh : h.Matches (.twins ρ) h')
include hh

theorem agree_decideQueued {q : QueueId} {o o' : Outcome} (ho : (Likeness.twins ρ).outcome o o')
    (actor : Option Actor) (hl : Like (.twins ρ) e e') :
    Agree (Like (.twins ρ)) Quietly (decideQueued h q s o actor) (decideQueued h' q s o' actor) e e' :=
  like_whole.decideQueued (concord_of_matches hh) ho actor hl

theorem agree_advance (hl : Like (.twins ρ) e e') :
    Agree (Like (.twins ρ)) Eq (advance h w context) (advance h' w context) e e' :=
  (like_whole.advance takesErrors_twins (concord_of_matches hh) hl).agree fun _ => id

theorem agree_startManaged (hl : Like (.twins ρ) e e') :
    Agree (Like (.twins ρ)) Eq (startManaged h m w context) (startManaged h' m w context) e e' :=
  (like_whole.startManaged takesErrors_twins (concord_of_matches hh) like_whole (fun _ _ hl => hl)
    (fun _ _ => agree_register) hl).agree fun _ => id

theorem agree_decide {o o' : Outcome} {actor : Option Actor} (ho : (Likeness.twins ρ).outcome o o')
    (hl : Like (.twins ρ) e e') :
    Agree (Like (.twins ρ)) Eq (decide h m s o actor context) (decide h' m s o' actor context) e e' :=
  (like_whole.decide takesErrors_twins (concord_of_matches hh) ho hl).agree fun _ => id

end Matching

/-! ## What is alike coincides -/

section Coinciding

variable {ρ : σ → σ → Prop} {e e' : Engine σ}

theorem map_byKey {l l' : List Successor}
    (h : List.Forall₂ (Successor.Like (Likeness.twins ρ)) l l') :
    l.map Successor.byKey = l'.map Successor.byKey := by
  induction h with
  | nil => rfl
  | cons hx _ ih =>
    rw [List.map_cons, List.map_cons, ih]
    simp only [Successor.byKey, Outcome.keyOnly, hx.target, (Likeness.twins ρ).key hx.outcome]

theorem byKey_eq {a b : Step} (h : Step.Like (Likeness.twins ρ) a b) (he : a.errors = b.errors) :
    a.byKey = b.byKey := by
  have hstart : a.startTime = b.startTime := h.startTime
  have hend : a.endTime = b.endTime := h.endTime
  rw [Step.byKey, Step.byKey, map_byKey h.successors]
  simp only [Outcome.keyOnly, h.kind, h.key, h.isTask, h.actor, h.state, he,
    (Likeness.twins ρ).key h.outcome, hstart, hend, h.workflowId, h.context, h.decision]

theorem Like.coincide (hl : Like (.twins ρ) e e') : Coincide e e' where
  steps s := byKey_eq (hl.step s) (congrFun hl.beyond.2.1 s)
  workflows w := (hl.workflow w).eq_of_time id
  queues := hl.queues
  managers := hl.managers
  contexts := hl.contexts

theorem indistinct_of_agree {α : Type} {V : α → α → Prop} {n n' : Act σ α} (hv : ∀ a a', V a a' → a = a')
    (h : Agree (Like (.twins ρ)) V n n' e e) : Indistinct n n' e := by
  rcases agree_iff.mp h with ⟨a, e₁, a', e₁', hr, hr', ha, hl⟩ | ⟨x, e₁, e₁', hr, hr', hl⟩
  · rw [Indistinct, hr, hr', hv a a' ha]
    exact ⟨rfl, hl.coincide⟩
  · rw [Indistinct, hr, hr']
    exact ⟨rfl, hl.coincide⟩

/-- Hooks that return a twin in place of an outcome match those that do not. -/
theorem matches_returning {h : Hooks σ γ} {a b : Outcome} (hh : h.Matches (.twins ρ) h)
    (hab : (Likeness.twins ρ).outcome a b) : h.Matches (.twins ρ) (h.returning a b) :=
  { hh with
    execute := by
      intro s c e e' hl
      have hr : Agree (Like (.twins ρ)) (Likeness.twins ρ).outcome (h.execute s c >>= pure)
          (h.execute s c >>= fun o => pure (if o = a then b else o)) e e' := by
        refine (hh.execute s c e e' hl).bind fun o o' _ _ ho hl => agree_pure ?_ hl
        split
        · rename_i h
          subst h
          exact ⟨ho.1.trans hab.1, ho.2.trans hab.2⟩
        · exact ho
      rwa [bind_pure] at hr }

end Coinciding

/-! ## The exact condition -/

def offering (o : Outcome) : Engine Unit :=
  { steps := #[{ kind := "Step", key := "step", successors := [⟨o, none⟩] }], clock := default, host := () }

/-- Given an outcome with the key that is registered, the step is completed if the outcome says so. -/
theorem isCompleted_setOutcome_offering {a o : Outcome} (h : a.same o) :
    (((setOutcome ⟨0⟩ o).run (offering a)).2.step ⟨0⟩).isCompleted = o.completion := by
  have hends := setOutcome_ends ⟨0⟩ o (offering a)
  rcases hr : (setOutcome ⟨0⟩ o).run (offering a) with ⟨x | u, e'⟩
  · obtain ⟨-, hc | hp⟩ := hends.of_error hr
    · cases hc
    · have hoffers : (((offering a).step ⟨0⟩).offers o) = true := by
        show (Successor.find? o [⟨a, none⟩]).isSome = true
        rw [Successor.find?, if_pos h]
        rfl
      rw [Step.permits, hoffers] at hp
      cases hp
  · obtain ⟨hc, t, he⟩ := hends.of_ok hr
    have hstep : (offering a).HasStep ⟨0⟩ := Nat.one_pos
    have hgiven := step_mapStep_self (·.given o t) hstep
    show (e'.step ⟨0⟩).isCompleted = _
    rw [step_of_core he.core, hgiven, Step.isCompleted_given_eq hc]

theorem completion_of_interchangeable {a b : Outcome} (hab : a.same b) (h : Interchangeable a b) :
    a.completion = b.completion := by
  have hset := (h (fun _ _ => True) Hooks.idle (fun _ => trivial) Hooks.matches_idle (offering a)).1 ⟨0⟩
  have hcompleted := congrArg Step.isCompleted (hset.2.steps ⟨0⟩)
  rwa [Step.isCompleted_byKey, Step.isCompleted_byKey,
    isCompleted_setOutcome_offering (Outcome.same_iff.mpr rfl), isCompleted_setOutcome_offering hab]
    at hcompleted

theorem interchangeable_of_completion {a b : Outcome} (hab : a.same b)
    (hc : a.completion = b.completion) : Interchangeable a b := by
  intro σ γ ρ h hρ hh e
  have ho : (Likeness.twins ρ).outcome a b := ⟨Outcome.same_iff.mp hab, hc⟩
  have hl : Like (.twins ρ) e e := like_self (fun _ => rfl) ⟨rfl, rfl, hρ _⟩
  have hunit : ∀ u u' : Unit, Quietly u u' → u = u' := fun _ _ _ => rfl
  have heq : ∀ x x' : WorkflowState, x = x' → x = x' := fun _ _ => id
  have hh' := matches_returning hh ho
  refine ⟨fun s => ?_, fun s => ?_, fun s target => ?_, fun q s actor => ?_, fun m s actor c => ?_,
    fun w c => ?_, fun m w c => ?_, fun m s o actor c => ?_⟩
  · exact indistinct_of_agree hunit ((like_bond default).setOutcome trivial hl ho)
  · exact indistinct_of_agree hunit ((like_bond default).resolve trivial hl ho)
  · exact indistinct_of_agree hunit (agree_addSuccessor hl ho target)
  · exact indistinct_of_agree hunit (agree_decideQueued hh ho actor hl)
  · exact indistinct_of_agree heq (agree_decide hh ho hl)
  · exact indistinct_of_agree heq (agree_advance hh' hl)
  · exact indistinct_of_agree heq (agree_startManaged hh' hl)
  · exact indistinct_of_agree heq (agree_decide hh' ((Likeness.twins ρ).outcome_refl o) hl)

/-- Outcomes with one key can take each other's place exactly if both complete their step or neither
does. -/
theorem interchangeable_iff {a b : Outcome} (hab : a.same b) :
    Interchangeable a b ↔ a.completion = b.completion :=
  ⟨completion_of_interchangeable hab, interchangeable_of_completion hab⟩

def done : Outcome := ⟨Outcome.complete.key, "done", true, true⟩

theorem done_interchangeable : Outcome.complete.same done ∧ Interchangeable .complete done :=
  ⟨by decide, (interchangeable_iff (a := .complete) (b := done) (by decide)).mpr rfl⟩

def bare : Outcome := ⟨Outcome.complete.key, Outcome.complete.key, false, false⟩

/-- An outcome with the key of completion that does not complete its step: what is equal by key is not
interchangeable. -/
theorem bare_not_interchangeable : Outcome.complete.same bare ∧ ¬Interchangeable .complete bare :=
  ⟨by decide, fun h => Bool.noConfusion (completion_of_interchangeable (by decide) h)⟩

end Engine

end ApprovalFlow
