import ApprovalFlow.Proofs.State

/-!
# Two actions that agree

Two actions agree if, from engines between which `M` holds, both succeed with results between which `V`
holds or both fail for the same reason, and `M` holds between the engines that they leave. Each combinator
has a rule by which a whole agrees as soon as its parts do.

One action follows another if, wherever the other succeeds, it agrees with it or fails in a given way. And
one is curtailed against another if it agrees with it or fails where the other has nothing left to do but to
return its result.
-/

namespace ApprovalFlow.Act

variable {σ τ α α' β β' : Type}

/-- From `e` and `e'` the actions agree. -/
def Agree (M : Engine σ → Engine τ → Prop) (V : α → α' → Prop) (m : Act σ α) (m' : Act τ α')
    (e : Engine σ) (e' : Engine τ) : Prop :=
  match m.run e, m'.run e' with
  | (.ok a, e₁), (.ok a', e₁') => V a a' ∧ M e₁ e₁'
  | (.error x, e₁), (.error x', e₁') => x = x' ∧ M e₁ e₁'
  | _, _ => False

variable {M : Engine σ → Engine τ → Prop} {V : α → α' → Prop} {W : β → β' → Prop} {m : Act σ α}
  {m' : Act τ α'} {e e₁ : Engine σ} {e' e₁' : Engine τ}

theorem agree_iff : Agree M V m m' e e' ↔
    (∃ a e₁ a' e₁', m.run e = (.ok a, e₁) ∧ m'.run e' = (.ok a', e₁') ∧ V a a' ∧ M e₁ e₁') ∨
    ∃ x e₁ e₁', m.run e = (.error x, e₁) ∧ m'.run e' = (.error x, e₁') ∧ M e₁ e₁' := by
  unfold Agree
  rcases m.run e with ⟨x | a, e₁⟩ <;> rcases m'.run e' with ⟨x' | a', e₁'⟩ <;> simp [eq_comm, and_assoc]

theorem agree_pure {a : α} {a' : α'} (hv : V a a') (hm : M e e') :
    Agree M V (pure a) (pure a') e e' := ⟨hv, hm⟩

theorem agree_throw (x : Failure) (hm : M e e') :
    Agree M V (throw x : Act σ α) (throw x : Act τ α') e e' := ⟨rfl, hm⟩

theorem agree_modify {f : Engine σ → Engine σ} {f' : Engine τ → Engine τ} (hm : M (f e) (f' e')) :
    Agree M (fun _ _ => True) (modify f : Act σ Unit) (modify f' : Act τ Unit) e e' := ⟨trivial, hm⟩

theorem agree_failIf {c c' : Bool} {x x' : Failure} (hc : c = c') (hx : x = x') (hm : M e e') :
    Agree M (fun _ _ => True) (failIf c x : Act σ Unit) (failIf c' x' : Act τ Unit) e e' := by
  subst hc hx
  cases c
  · exact ⟨trivial, hm⟩
  · exact ⟨rfl, hm⟩

/-- What comes after a check takes place where the check is passed. -/
theorem agree_failIf_bind {c c' : Bool} {x x' : Failure} {f : Unit → Act σ β} {f' : Unit → Act τ β'}
    (hc : c = c') (hx : x = x') (hm : M e e') (h : c = false → Agree M W (f ()) (f' ()) e e') :
    Agree M W (failIf c x >>= f) (failIf c' x' >>= f') e e' := by
  subst hc hx
  cases c
  · exact h rfl
  · exact ⟨rfl, hm⟩

theorem Agree.onlyIf {c c' : Bool} {n : Act σ Unit} {n' : Act τ Unit} (hc : c = c')
    (h : c = true → Agree M (fun _ _ => True) n n' e e') (hm : M e e') :
    Agree M (fun _ _ => True) (onlyIf c n) (onlyIf c' n') e e' := by
  subst hc
  cases c
  · exact ⟨trivial, hm⟩
  · exact h rfl

theorem Agree.bind {f : α → Act σ β} {f' : α' → Act τ β'} (h : Agree M V m m' e e')
    (hf : ∀ a a' e₁ e₁', V a a' → M e₁ e₁' → Agree M W (f a) (f' a') e₁ e₁') :
    Agree M W (m >>= f) (m' >>= f') e e' := by
  rcases agree_iff.mp h with ⟨a, e₁, a', e₁', hr, hr', hv, hm⟩ | ⟨x, e₁, e₁', hr, hr', hm⟩
  · have hb := hf a a' e₁ e₁' hv hm
    unfold Agree at hb ⊢
    rwa [run_bind, run_bind, hr, hr']
  · unfold Agree
    rw [run_bind, run_bind, hr, hr']
    exact ⟨rfl, hm⟩

/-- Reading the engine gives each action its own. -/
theorem agree_get_bind {f : Engine σ → Act σ β} {f' : Engine τ → Act τ β'}
    (h : Agree M W (f e) (f' e') e e') : Agree M W (get >>= f) (get >>= f') e e' := h

/-- What comes after changes of the engines takes place where they lead. -/
theorem agree_modify_bind {g : Engine σ → Engine σ} {g' : Engine τ → Engine τ} {f : Unit → Act σ β}
    {f' : Unit → Act τ β'} (h : Agree M W (f ()) (f' ()) (g e) (g' e')) :
    Agree M W (modify g >>= f) (modify g' >>= f') e e' := h

theorem Agree.tryCatch {handle : Failure → Act σ α} {handle' : Failure → Act τ α'}
    (h : Agree M V m m' e e')
    (hh : ∀ x e₁ e₁', M e₁ e₁' → Agree M V (handle x) (handle' x) e₁ e₁') :
    Agree M V (tryCatch m handle) (tryCatch m' handle') e e' := by
  rcases agree_iff.mp h with ⟨a, e₁, a', e₁', hr, hr', hv, hm⟩ | ⟨x, e₁, e₁', hr, hr', hm⟩
  · unfold Agree
    rw [run_tryCatch, run_tryCatch, hr, hr']
    exact ⟨hv, hm⟩
  · have hb := hh x e₁ e₁' hm
    unfold Agree at hb ⊢
    rwa [run_tryCatch, run_tryCatch, hr, hr']

theorem Agree.forM {ι : Type} {f : ι → Act σ Unit} {f' : ι → Act τ Unit} (xs : List ι)
    (h : ∀ x ∈ xs, ∀ e e', M e e' → Agree M (fun _ _ => True) (f x) (f' x) e e') (hm : M e e') :
    Agree M (fun _ _ => True) (xs.forM f) (xs.forM f') e e' := by
  induction xs generalizing e e' with
  | nil => exact ⟨trivial, hm⟩
  | cons x xs ih =>
    refine (h x List.mem_cons_self e e' hm).bind fun _ _ e₁ e₁' _ hm₁ => ?_
    exact ih (fun y hy => h y (List.mem_cons_of_mem x hy)) hm₁

theorem Agree.mono {M' : Engine σ → Engine τ → Prop} {V' : α → α' → Prop} (h : Agree M V m m' e e')
    (hv : ∀ a a', V a a' → V' a a') (hm : ∀ e₁ e₁', M e₁ e₁' → M' e₁ e₁') :
    Agree M' V' m m' e e' := by
  rcases agree_iff.mp h with ⟨a, e₁, a', e₁', hr, hr', hv', hm'⟩ | ⟨x, e₁, e₁', hr, hr', hm'⟩
  · exact agree_iff.mpr (.inl ⟨a, e₁, a', e₁', hr, hr', hv a a' hv', hm e₁ e₁' hm'⟩)
  · exact agree_iff.mpr (.inr ⟨x, e₁, e₁', hr, hr', hm e₁ e₁' hm'⟩)

/-- To what holds between the engines anything may be added that holds where the actions lead. -/
theorem Agree.and {P : Engine σ → Engine τ → Prop} (h : Agree M V m m' e e')
    (hp : P (m.run e).2 (m'.run e').2) : Agree (fun e₁ e₁' => M e₁ e₁' ∧ P e₁ e₁') V m m' e e' := by
  rcases agree_iff.mp h with ⟨a, e₁, a', e₁', hr, hr', hv, hm⟩ | ⟨x, e₁, e₁', hr, hr', hm⟩
  all_goals rw [hr, hr'] at hp
  · exact agree_iff.mpr (.inl ⟨a, e₁, a', e₁', hr, hr', hv, hm, hp⟩)
  · exact agree_iff.mpr (.inr ⟨x, e₁, e₁', hr, hr', hm, hp⟩)

/-- Actions that cannot fail agree if what they end in goes together. -/
theorem agree_of_ends {Q : α → Engine σ → Prop} {Q' : α' → Engine τ → Prop}
    (h : m.Ends e Q fun _ _ => False) (h' : m'.Ends e' Q' fun _ _ => False)
    (hv : ∀ a e₁ a' e₁', Q a e₁ → Q' a' e₁' → V a a' ∧ M e₁ e₁') : Agree M V m m' e e' := by
  obtain ⟨a, e₁, hr, hq⟩ := h.exists_ok
  obtain ⟨a', e₁', hr', hq'⟩ := h'.exists_ok
  exact agree_iff.mpr (.inl ⟨a, e₁, a', e₁', hr, hr', hv a e₁ a' e₁' hq hq'⟩)

/-- The engines that agreeing actions leave are related in any case. -/
theorem Agree.state (h : Agree M V m m' e e') : M (m.run e).2 (m'.run e').2 := by
  rcases agree_iff.mp h with ⟨a, e₁, a', e₁', hr, hr', -, hm⟩ | ⟨x, e₁, e₁', hr, hr', hm⟩
  all_goals
    rw [hr, hr']
    exact hm

/-- Actions that agree on equal results come to the same, be it a result or a failure. -/
theorem Agree.result {m m' : Act σ α} {e e' : Engine σ} {M : Engine σ → Engine σ → Prop}
    (h : Agree M Eq m m' e e') : (m.run e).1 = (m'.run e').1 := by
  rcases agree_iff.mp h with ⟨a, e₁, a', e₁', hr, hr', ha, -⟩ | ⟨x, e₁, e₁', hr, hr', -⟩
  · rw [hr, hr', ha]
  · rw [hr, hr']

/-- Where the first of two agreeing actions succeeds, so does the second. -/
theorem Agree.of_ok {a : α} (h : Agree M V m m' e e') (hr : m.run e = (.ok a, e₁)) :
    ∃ a' e₁', m'.run e' = (.ok a', e₁') ∧ V a a' ∧ M e₁ e₁' := by
  unfold Agree at h
  rw [hr] at h
  rcases hr' : m'.run e' with ⟨x' | a', e₁'⟩ <;> rw [hr'] at h
  · exact h.elim
  · exact ⟨a', e₁', rfl, h⟩

/-- Where `m` succeeds from `e`, from `e'` the action `m'` comes to the same or fails so that `N` holds. -/
def Follows (M : Engine σ → Engine τ → Prop) (V : α → α' → Prop) (N : Failure → Engine τ → Prop)
    (m : Act σ α) (m' : Act τ α') (e : Engine σ) (e' : Engine τ) : Prop :=
  ∀ a e₁, m.run e = (.ok a, e₁) → m'.Ends e' (fun a' e₁' => V a a' ∧ M e₁ e₁') N

section Follows

variable {N : Failure → Engine τ → Prop}

theorem Agree.follows (h : Agree M V m m' e e') : Follows M V N m m' e e' := by
  intro a e₁ hr
  obtain ⟨a', e₁', hr', hv, hm⟩ := h.of_ok hr
  unfold Ends
  rw [hr']
  exact ⟨hv, hm⟩

theorem Follows.mono {N' : Failure → Engine τ → Prop} (h : Follows M V N m m' e e')
    (hn : ∀ x e₁', N x e₁' → N' x e₁') : Follows M V N' m m' e e' :=
  fun a e₁ hr => (h a e₁ hr).mono (fun _ _ hq => hq) hn

theorem Follows.congr {n : Act σ α} {n' : Act τ α'} (h : Follows M V N n n' e e')
    (hm : m.run e = n.run e) (hm' : m'.run e' = n'.run e') : Follows M V N m m' e e' := by
  intro a e₁ hr
  unfold Ends
  rw [hm']
  exact h a e₁ (hm.symm.trans hr)

theorem Follows.bind {f : α → Act σ β} {f' : α' → Act τ β'} (h : Follows M V N m m' e e')
    (hf : ∀ a a' e₁ e₁', m.run e = (.ok a, e₁) → V a a' → M e₁ e₁' →
      Follows M W N (f a) (f' a') e₁ e₁') :
    Follows M W N (m >>= f) (m' >>= f') e e' := by
  intro b e₂ hr
  obtain ⟨a, e₁, hm, hr⟩ := exists_of_run_bind hr
  rw [ends_bind]
  refine (h a e₁ hm).mono ?_ fun _ _ hn => hn
  rintro a' e₁' ⟨hv, hm'⟩
  exact hf a a' e₁ e₁' hm hv hm' b e₂ hr

theorem follows_get_bind {f : Engine σ → Act σ β} {f' : Engine τ → Act τ β'}
    (h : Follows M W N (f e) (f' e') e e') : Follows M W N (get >>= f) (get >>= f') e e' := h

end Follows

/-- From `e` and `e'` the actions agree, or `m` alone fails where `m'` has come to a result of which `N`
holds, and `M` holds between the engines nevertheless. -/
def Curtailed (M : Engine σ → Engine τ → Prop) (V : α → α' → Prop) (N : α' → Prop) (m : Act σ α)
    (m' : Act τ α') (e : Engine σ) (e' : Engine τ) : Prop :=
  Agree M V m m' e e' ∨
    ∃ x e₁ a' e₁', m.run e = (.error x, e₁) ∧ m'.run e' = (.ok a', e₁') ∧ N a' ∧ M e₁ e₁'

section Curtailed

variable {N : α' → Prop} {N' : β' → Prop}

theorem Agree.curtailed (h : Agree M V m m' e e') : Curtailed M V N m m' e e' := .inl h

theorem Curtailed.agree (h : Curtailed M V N m m' e e') (hn : ∀ a', ¬N a') : Agree M V m m' e e' :=
  h.resolve_right fun ⟨_, _, a', _, _, _, hna, _⟩ => hn a' hna

/-- The engines are related in any case. -/
theorem Curtailed.state (h : Curtailed M V N m m' e e') : M (m.run e).2 (m'.run e').2 := by
  rcases h with h | ⟨x, e₁, a', e₁', hr, hr', -, hm⟩
  · exact h.state
  · rw [hr, hr']
    exact hm

theorem Curtailed.congr {n : Act σ α} {n' : Act τ α'} (h : Curtailed M V N n n' e₁ e₁')
    (hr : m.run e = n.run e₁) (hr' : m'.run e' = n'.run e₁') : Curtailed M V N m m' e e' := by
  unfold Curtailed Agree at h ⊢
  rwa [hr, hr']

/-- What comes after actions that agree may be curtailed, and may be said of less. -/
theorem Agree.bind_curtailed_of_imp {M' : Engine σ → Engine τ → Prop} {f : α → Act σ β}
    {f' : α' → Act τ β'} (h : Agree M V m m' e e') (himp : ∀ e₁ e₁', M e₁ e₁' → M' e₁ e₁')
    (hf : ∀ a a' e₁ e₁', V a a' → M e₁ e₁' → Curtailed M' W N' (f a) (f' a') e₁ e₁') :
    Curtailed M' W N' (m >>= f) (m' >>= f') e e' := by
  rcases agree_iff.mp h with ⟨a, e₁, a', e₁', hr, hr', hv, hm⟩ | ⟨x, e₁, e₁', hr, hr', hm⟩
  · have hb := hf a a' e₁ e₁' hv hm
    unfold Curtailed Agree at hb ⊢
    rwa [run_bind, run_bind, hr, hr']
  · refine .inl (agree_iff.mpr (.inr ⟨x, e₁, e₁', ?_, ?_, himp _ _ hm⟩))
    · rw [run_bind, hr]
    · rw [run_bind, hr']

theorem Agree.bind_curtailed {f : α → Act σ β} {f' : α' → Act τ β'} (h : Agree M V m m' e e')
    (hf : ∀ a a' e₁ e₁', V a a' → M e₁ e₁' → Curtailed M W N' (f a) (f' a') e₁ e₁') :
    Curtailed M W N' (m >>= f) (m' >>= f') e e' :=
  h.bind_curtailed_of_imp (fun _ _ hm => hm) hf

/-- Where `m` alone has failed, the rest of the other action is to return a result. -/
theorem Curtailed.bind {f : α → Act σ β} {f' : α' → Act τ β'} (h : Curtailed M V N m m' e e')
    (hf : ∀ a a' e₁ e₁', V a a' → M e₁ e₁' → Curtailed M W N' (f a) (f' a') e₁ e₁')
    (hn : ∀ a', N a' → ∃ b, f' a' = pure b ∧ N' b) : Curtailed M W N' (m >>= f) (m' >>= f') e e' := by
  rcases h with h | ⟨x, e₁, a', e₁', hr, hr', hna, hm⟩
  · exact h.bind_curtailed hf
  · obtain ⟨b, hb, hnb⟩ := hn a' hna
    refine .inr ⟨x, e₁, b, e₁', ?_, ?_, hnb, hm⟩
    · rw [run_bind, hr]
    · rw [run_bind, hr']
      dsimp only
      rw [hb]
      rfl

theorem curtailed_get_bind {f : Engine σ → Act σ β} {f' : Engine τ → Act τ β'}
    (h : Curtailed M W N' (f e) (f' e') e e') : Curtailed M W N' (get >>= f) (get >>= f') e e' := h

theorem Curtailed.onlyIf {N : Unit → Prop} {c c' : Bool} {n : Act σ Unit} {n' : Act τ Unit} (hc : c = c')
    (h : c = true → Curtailed M (fun _ _ => True) N n n' e e') (hm : M e e') :
    Curtailed M (fun _ _ => True) N (Act.onlyIf c n) (Act.onlyIf c' n') e e' := by
  subst hc
  cases c
  · exact .inl ⟨trivial, hm⟩
  · exact h rfl

end Curtailed

end ApprovalFlow.Act
