import ApprovalFlow.Engine
import Mathlib.Order.Defs.Unbundled

/-!
# Reasoning about actions

Two ways of saying what an action does. `Ends m e Q F` computes backwards: from `e` the action `m` gives
a result of which `Q` holds, or fails in a way of which `F` holds; every combinator has an equation that
takes it apart. `Always R m` looks at the engine alone: whatever `m` results in, it leads from an engine to
one that stands in `R` to it. If `R` is a preorder, `Always R` holds of a whole as soon as it holds of the
parts.
-/

namespace ApprovalFlow.Act

variable {σ α β : Type}

/-! ## What an action ends in -/

/-- From `e` the action succeeds with `Q` or fails with `F`. -/
def Ends (m : Act σ α) (e : Engine σ) (Q : α → Engine σ → Prop) (F : Failure → Engine σ → Prop) :
    Prop :=
  match m.run e with
  | (.ok a, e') => Q a e'
  | (.error x, e') => F x e'

section Ends

variable {e : Engine σ} {F : Failure → Engine σ → Prop}

theorem ends_pure {Q : α → Engine σ → Prop} (a : α) : (pure a : Act σ α).Ends e Q F ↔ Q a e := Iff.rfl

theorem ends_throw {Q : α → Engine σ → Prop} (x : Failure) :
    (throw x : Act σ α).Ends e Q F ↔ F x e := Iff.rfl

theorem ends_get {Q : Engine σ → Engine σ → Prop} : (get : Act σ (Engine σ)).Ends e Q F ↔ Q e e :=
  Iff.rfl

theorem ends_modifyGet {Q : α → Engine σ → Prop} (f : Engine σ → α × Engine σ) :
    (modifyGet f : Act σ α).Ends e Q F ↔ Q (f e).1 (f e).2 := Iff.rfl

theorem ends_bind {Q : β → Engine σ → Prop} (m : Act σ α) (f : α → Act σ β) :
    (m >>= f).Ends e Q F ↔ m.Ends e (fun a e' => (f a).Ends e' Q F) F := by
  unfold Ends
  rw [run_bind]
  rcases m.run e with ⟨_ | _, _⟩ <;> exact Iff.rfl

theorem ends_tryCatch {Q : α → Engine σ → Prop} (m : Act σ α) (handle : Failure → Act σ α) :
    (tryCatch m handle).Ends e Q F ↔ m.Ends e Q fun x e' => (handle x).Ends e' Q F := by
  unfold Ends
  rw [run_tryCatch]
  rcases m.run e with ⟨_ | _, _⟩ <;> exact Iff.rfl

theorem ends_failIf {Q : Unit → Engine σ → Prop} (c : Bool) (x : Failure) :
    (failIf c x : Act σ Unit).Ends e Q F ↔ if c then F x e else Q () e := by
  cases c <;> exact Iff.rfl

theorem ends_onlyIf {Q : Unit → Engine σ → Prop} (c : Bool) (m : Act σ Unit) :
    (onlyIf c m).Ends e Q F ↔ if c then m.Ends e Q F else Q () e := by
  cases c <;> exact Iff.rfl

theorem Ends.mono {m : Act σ α} {Q Q' : α → Engine σ → Prop} {F' : Failure → Engine σ → Prop}
    (h : m.Ends e Q F) (hq : ∀ a e', Q a e' → Q' a e') (hf : ∀ x e', F x e' → F' x e') :
    m.Ends e Q' F' := by
  unfold Ends at h ⊢
  rcases hm : m.run e with ⟨x | a, e'⟩
  · rw [hm] at h; exact hf x e' h
  · rw [hm] at h; exact hq a e' h

/-- An action ends in what it ends in. -/
theorem ends_run (m : Act σ α) (e : Engine σ) :
    m.Ends e (fun a e' => m.run e = (.ok a, e')) (fun x e' => m.run e = (.error x, e')) := by
  unfold Ends
  rcases m.run e with ⟨_ | _, _⟩ <;> rfl

theorem Ends.of_ok {m : Act σ α} {Q : α → Engine σ → Prop} {a : α} {e' : Engine σ}
    (h : m.Ends e Q F) (hm : m.run e = (.ok a, e')) : Q a e' := by
  unfold Ends at h; rwa [hm] at h

theorem Ends.of_error {m : Act σ α} {Q : α → Engine σ → Prop} {x : Failure} {e' : Engine σ}
    (h : m.Ends e Q F) (hm : m.run e = (.error x, e')) : F x e' := by
  unfold Ends at h; rwa [hm] at h

/-- An action that cannot fail succeeds. -/
theorem Ends.exists_ok {m : Act σ α} {Q : α → Engine σ → Prop} (h : m.Ends e Q fun _ _ => False) :
    ∃ a e', m.run e = (.ok a, e') ∧ Q a e' := by
  unfold Ends at h
  rcases hm : m.run e with ⟨x | a, e'⟩
  · rw [hm] at h
    exact h.elim
  · rw [hm] at h
    exact ⟨a, e', rfl, h⟩

/-- What an action ends in by two accounts it ends in by both. -/
theorem Ends.and {m : Act σ α} {Q Q' : α → Engine σ → Prop} {F' : Failure → Engine σ → Prop}
    (h : m.Ends e Q F) (h' : m.Ends e Q' F') :
    m.Ends e (fun a e' => Q a e' ∧ Q' a e') (fun x e' => F x e' ∧ F' x e') :=
  (ends_run m e).mono (fun _ _ hr => ⟨h.of_ok hr, h'.of_ok hr⟩)
    fun _ _ hr => ⟨h.of_error hr, h'.of_error hr⟩

/-- What holds of the engine however the action ends holds of the engine it leaves. -/
theorem Ends.state {m : Act σ α} {P : Engine σ → Prop}
    (h : m.Ends e (fun _ => P) (fun _ => P)) : P (m.run e).2 := by
  unfold Ends at h
  rcases hm : m.run e with ⟨_ | _, _⟩ <;> rw [hm] at h <;> exact h

theorem ends_forM_cons {ι : Type} {Q : Unit → Engine σ → Prop} (f : ι → Act σ Unit) (x : ι)
    (xs : List ι) :
    ((x :: xs).forM f).Ends e Q F ↔ (f x).Ends e (fun _ e' => (xs.forM f).Ends e' Q F) F :=
  ends_bind _ _

theorem ends_forM_append {ι : Type} {Q : Unit → Engine σ → Prop} (f : ι → Act σ Unit) (xs ys : List ι) :
    ((xs ++ ys).forM f).Ends e Q F ↔
      (xs.forM f).Ends e (fun _ e' => (ys.forM f).Ends e' Q F) F := by
  rw [← ends_bind]
  exact Iff.of_eq (congrArg (Ends · e Q F) List.forM_append)

end Ends

/-- A sequence succeeds if the first action does, and the second one after it. -/
theorem exists_of_run_bind {m : Act σ α} {f : α → Act σ β} {b : β} {e e₂ : Engine σ}
    (h : (m >>= f).run e = (.ok b, e₂)) :
    ∃ a e₁, m.run e = (.ok a, e₁) ∧ (f a).run e₁ = (.ok b, e₂) := by
  rw [run_bind] at h
  rcases hm : m.run e with ⟨x | a, e₁⟩
  · rw [hm] at h
    cases h
  · rw [hm] at h
    exact ⟨a, e₁, rfl, h⟩

theorem run_bind_of_ok {m : Act σ α} {a : α} {e e₁ : Engine σ} (h : m.run e = (.ok a, e₁))
    (f : α → Act σ β) : (m >>= f).run e = (f a).run e₁ := by
  rw [run_bind, h]

/-- What comes after an action and only looks at its result leaves the engine as it is. -/
theorem state_bind_pure (m : Act σ α) (f : α → β) (e : Engine σ) :
    ((m >>= fun a => pure (f a)).run e).2 = (m.run e).2 := by
  rw [run_bind]
  rcases m.run e with ⟨_ | _, _⟩ <;> rfl

/-! ## What an action always does -/

/-- Whatever the action results in, it leads from an engine to one that stands in `R` to it. -/
def Always (R : Engine σ → Engine σ → Prop) (m : Act σ α) : Prop := ∀ e, R e (m.run e).2

section Always

variable {R : Engine σ → Engine σ → Prop}

theorem Always.ends {m : Act σ α} (h : m.Always R) (e : Engine σ) :
    m.Ends e (fun _ => R e) (fun _ => R e) := by
  have he := h e
  unfold Ends
  rcases hm : m.run e with ⟨_ | _, _⟩ <;> rw [hm] at he <;> exact he

theorem always_of_ends {m : Act σ α} (h : ∀ e, m.Ends e (fun _ => R e) (fun _ => R e)) :
    m.Always R := fun e => (h e).state

/-- Where an engine that stands in `R` to `e₁` is led to, as far as `R` is concerned. -/
theorem Ends.after [IsTrans (Engine σ) R] {m : Act σ α} {e e₁ : Engine σ}
    (h : m.Ends e₁ (fun _ => R e₁) (fun _ => R e₁)) (h₁ : R e e₁) :
    m.Ends e₁ (fun _ => R e) (fun _ => R e) :=
  h.mono (fun _ _ h₂ => IsTrans.trans _ _ _ h₁ h₂) fun _ _ h₂ => IsTrans.trans _ _ _ h₁ h₂

theorem Always.mono {R' : Engine σ → Engine σ → Prop} {m : Act σ α} (h : m.Always R)
    (hr : ∀ {e e'}, R e e' → R' e e') : m.Always R' := fun e => hr (h e)

theorem always_modify {f : Engine σ → Engine σ} (h : ∀ e, R e (f e)) :
    (modify f : Act σ Unit).Always R := h

theorem always_modifyGet {f : Engine σ → α × Engine σ} (h : ∀ e, R e (f e).2) :
    (modifyGet f : Act σ α).Always R := h

theorem always_pure [Std.Refl R] (a : α) : (pure a : Act σ α).Always R := fun e => refl e

theorem always_throw [Std.Refl R] (x : Failure) : (throw x : Act σ α).Always R := fun e => refl e

theorem always_get [Std.Refl R] : (get : Act σ (Engine σ)).Always R := fun e => refl e

theorem always_failIf [Std.Refl R] (c : Bool) (x : Failure) : (failIf c x : Act σ Unit).Always R := by
  intro e
  rw [run_failIf]
  cases c <;> exact refl e

theorem Always.onlyIf [Std.Refl R] {m : Act σ Unit} (h : m.Always R) (c : Bool) :
    (onlyIf c m).Always R := by
  intro e
  rw [run_onlyIf]
  cases c
  · exact refl e
  · exact h e

theorem Always.bind [IsTrans (Engine σ) R] {m : Act σ α} {f : α → Act σ β} (hm : m.Always R)
    (hf : ∀ a, (f a).Always R) : (m >>= f).Always R := by
  intro e
  have he := hm e
  rw [run_bind]
  rcases hr : m.run e with ⟨x | a, e'⟩
  · rwa [hr] at he
  · rw [hr] at he
    exact IsTrans.trans _ _ _ he (hf a e')

theorem Always.tryCatch [IsTrans (Engine σ) R] {m : Act σ α} {handle : Failure → Act σ α}
    (hm : m.Always R) (hf : ∀ x, (handle x).Always R) : (tryCatch m handle).Always R := by
  intro e
  have he := hm e
  rw [run_tryCatch]
  rcases hr : m.run e with ⟨x | a, e'⟩
  · rw [hr] at he
    exact IsTrans.trans _ _ _ he (hf x e')
  · rwa [hr] at he

theorem Always.forM [IsPreorder (Engine σ) R] {ι : Type} {f : ι → Act σ Unit} (xs : List ι)
    (h : ∀ x ∈ xs, (f x).Always R) : (xs.forM f).Always R := by
  -- Each element keeps the relation, and the relation is transitive.
  induction xs with
  | nil => exact always_pure ()
  | cons x xs ih =>
    exact (h x List.mem_cons_self).bind fun _ => ih fun y hy => h y (List.mem_cons_of_mem x hy)

end Always

end ApprovalFlow.Act
