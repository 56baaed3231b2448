import ApprovalFlow.Proofs.GlobalRelations
import ApprovalFlow.Proofs.Drivable

/-!
# Trying again

Hooks that falter do what others do, but may first fail a number of times for reasons of business. Driving
a workflow with them, and trying again as often as it fails, comes to the same as driving it with the
others (`follows_plays`). The argument is a simulation: a failed attempt leaves an engine that is like one
from which the other hooks still come to where they came before (`Resumable`), and fewer failures are left.
-/

namespace ApprovalFlow

variable {σ τ γ : Type}

def Engine.Open (e : Engine σ) (s : StepId) : Prop := e.HasStep s ∧ (e.step s).isCompleted = false

/-- Once the failure has been noted on the step `s`, the engine is still like `e`, with fewer than `k`
failures left. -/
def Engine.Recoverable (L : Nat → Likeness σ τ) (k : Nat) (s : StepId) (e : Engine σ) (x : Failure)
    (e' : Engine τ) : Prop :=
  ∃ text j, x.businessText? = some text ∧ j < k ∧
    Engine.Like (L j) e (e'.mapStep s fun st => { st with errors := st.errors ++ [text] })

/-- The hooks `h'` do what `h` do where these succeed, but when a step is executed or put to its actor they
may fail instead. `L k` compares engines if at most `k` such failures are left. -/
structure Hooks.Falters (L : Nat → Likeness σ τ) (h : Hooks σ γ) (h' : Hooks τ γ) : Prop where
  starting : ∀ k s e e', Engine.Like (L k) e e' → e.Open s →
    Act.Follows (Engine.Like (L k)) Engine.Quietly (fun _ _ => False) (h.starting s) (h'.starting s) e e'
  execute : ∀ k s c e e', Engine.Like (L k) e e' → e.Open s →
    Act.Follows (Engine.Like (L k)) (L k).outcome (Engine.Recoverable L k s e) (h.execute s c)
      (h'.execute s c) e e'
  present : ∀ k s c e e', Engine.Like (L k) e e' → e.Open s →
    Act.Follows (Engine.Like (L k)) Engine.Quietly (Engine.Recoverable L k s e) (h.present s c)
      (h'.present s c) e e'
  observe : ∀ k, Engine.ObservesAlike (L k) h h'
  room : h.room ≤ h'.room

/-- Does something, and again up to `n` times as long as it fails. -/
def Act.retry {α : Type} (n : Nat) (m : Act σ α) : Act σ α :=
  match n with
  | 0 => m
  | n + 1 => tryCatch m fun _ => retry n m

namespace Engine

open Act

variable {α β : Type} {L : Nat → Likeness σ τ} {k n : Nat} {h : Hooks σ γ} {h' : Hooks τ γ}
  {own : StepId → Prop} {w : WorkflowId} {s : StepId} {context : γ} {e e₁ : Engine σ} {e' : Engine τ}

/-- The engine `e'` is like one of which `P` holds and from which `m` still comes to what it comes to from
`e`; fewer than `k` failures are left. -/
def Resumable (L : Nat → Likeness σ τ) (k : Nat) (P : Engine σ → Prop) (m : Act σ α) (e : Engine σ)
    (_ : Failure) (e' : Engine τ) : Prop :=
  ∃ j e₁, j < k ∧ Like (L j) e₁ e' ∧ P e₁ ∧ ∀ a e₂, m.run e = (.ok a, e₂) → m.run e₁ = (.ok a, e₂)

theorem Resumable.bind {P : Engine σ → Prop} {m : Act σ α} {x : Failure} (f : α → Act σ β)
    (hr : Resumable L k P m e x e') : Resumable L k P (m >>= f) e x e' := by
  obtain ⟨j, e₁, hj, hl, hp, hm⟩ := hr
  refine ⟨j, e₁, hj, hl, hp, fun b e₃ hb => ?_⟩
  obtain ⟨a, e₂, hrun, hb⟩ := exists_of_run_bind hb
  rwa [run_bind_of_ok (hm a e₂ hrun)]

/-! ## Running a step -/

theorem run_guarding_of_ok {m : Act σ α} {a : α} (hr : (guarding w s m).run e = (.ok a, e₁)) :
    m.run e = (.ok a, e₁) := by
  unfold guarding at hr
  rw [run_tryCatch] at hr
  rcases hm : m.run e with ⟨x | b, e₂⟩
  · -- What is caught is thrown again.
    rw [hm] at hr
    dsimp only at hr
    cases hx : x.businessText? <;> rw [hx] at hr <;> cases hr
  · rw [hm] at hr
    exact hr

/-- A failure that is noted on the step leaves an engine that is like before. -/
theorem follows_guarding {M : Engine σ → Engine τ → Prop} {V : α → β → Prop} {m : Act σ α}
    {m' : Act τ β} {e₀ : Engine σ} (hm : Follows M V (Recoverable L k s e₀) m m' e e') :
    Follows M V (fun _ e₁' => ∃ j < k, Like (L j) e₀ e₁') (guarding w s m) (guarding w s m') e e' := by
  intro a e₁ hr
  unfold guarding
  rw [ends_tryCatch]
  refine (hm a e₁ (run_guarding_of_ok hr)).mono (fun _ _ hq => hq) ?_
  rintro x e₁' ⟨text, j, hx, hj, hl⟩
  rw [hx]
  dsimp only
  unfold addError
  rw [ends_bind, ends_updateStep, ends_bind, ends_get, ends_bind, ends_note, ends_throw]
  exact ⟨j, hj, hl.aside e₀.journal _⟩

section Turns

variable (hf : h.Falters L h')
include hf

theorem follows_start (hl : Like (L k) e e') (ho : e.Open s) :
    Follows (Like (L k)) Quietly (fun _ _ => False) (start h s) (start h' s) e e' := by
  rw [start_eq, start_eq]
  exact (hf.starting k s e e' hl ho).bind fun _ _ _ _ _ _ hl => ((like_bond default).startHooked trivial hl).follows

theorem follows_execute (hl : Like (L k) e e') (ho : e.Open s) :
    Follows (Like (L k)) (L k).outcome (Recoverable L k s e) (execute h s context)
      (execute h' s context) e e' := by
  apply follows_get_bind
  rw [(hl.step s).isDecision]
  split
  · have hp : Follows (Like (L k)) Quietly (Recoverable L k s e) (presentDecision h s context)
        (presentDecision h' s context) e e' := by
      rw [presentDecision_eq, presentDecision_eq]
      exact (hf.present k s context e e' hl ho).bind fun _ _ _ _ _ _ hl =>
        ((like_bond default).notePresented trivial hl).follows
    refine hp.bind fun _ _ _ _ _ _ hl => ?_
    exact (agree_pure ((L k).outcome_refl .proceed) hl).follows
  · exact hf.execute k s context e e' hl ho

/-- To execute an incomplete step and to deal with it may be tried again from the same engine. -/
theorem follows_executeStep (hl : Like (L k) e e') (ho : e.Open s) :
    Follows (Like (L k)) Eq (fun _ e₁' => ∃ j < k, Like (L j) e e₁')
      (executeStep h w s context >>= fun _ => conclude h w s)
      (executeStep h' w s context >>= fun _ => conclude h' w s) e e' := by
  rw [executeStep_eq, executeStep_eq, bind_assoc, bind_assoc]
  refine (follows_guarding (follows_execute hf hl ho)).bind fun o o' _ _ _ hout hl => ?_
  refine (((like_bond default).giveResult trivial hl hout).follows).bind fun _ _ _ _ _ _ hl => ?_
  exact (agree_conclude (hf.observe k) hl).follows

end Turns

/-! ## Turns -/

/-- A step that has been started is executed, unless it waits for its actor. -/
theorem runStep_of_started (hst : (e.step s).isStarted = true) :
    (runStep h w s context).run e =
      (onlyIf (!(e.step s).isPending) (executeStep h w s context)).run e := by
  show (onlyIf (!(e.step s).isStarted) _ >>= fun _ =>
    onlyIf (!((e.step s).isStarted && (e.step s).isPending)) _).run e = _
  rw [hst]
  rfl

theorem runStep_of_unstarted (hst : (e.step s).isStarted = false) :
    (runStep h w s context).run e =
      (guarding w s (start h s) >>= fun _ => executeStep h w s context).run e := by
  show (onlyIf (!(e.step s).isStarted) _ >>= fun _ =>
    onlyIf (!((e.step s).isStarted && (e.step s).isPending)) _).run e = _
  rw [hst]
  rfl

section Cases

variable (hs : (e.workflow w).current = s)
include hs

theorem turn_of_completed (hc : (e.step s).isCompleted = true) :
    (turn h w context).run e = (conclude h w s).run e := by
  subst hs
  show (onlyIf (!(e.step (e.workflow w).current).isCompleted) _ >>= fun _ => _).run e = _
  rw [hc]
  rfl

theorem turn_of_incomplete (hc : (e.step s).isCompleted = false) :
    (turn h w context).run e = (runStep h w s context >>= fun _ => conclude h w s).run e := by
  subst hs
  show (onlyIf (!(e.step (e.workflow w).current).isCompleted) _ >>= fun _ => _).run e = _
  rw [hc]
  rfl

theorem turn_of_pending (hc : (e.step s).isCompleted = false) (hst : (e.step s).isStarted = true)
    (hp : (e.step s).isPending = true) : (turn h w context).run e = (conclude h w s).run e := by
  rw [turn_of_incomplete hs hc, run_bind, runStep_of_started hst, hp]
  rfl

theorem turn_of_started (hc : (e.step s).isCompleted = false) (hst : (e.step s).isStarted = true)
    (hp : (e.step s).isPending = false) :
    (turn h w context).run e =
      (executeStep h w s context >>= fun _ => conclude h w s).run e := by
  rw [turn_of_incomplete hs hc, run_bind, runStep_of_started hst, hp]
  rfl

theorem turn_of_unstarted (hc : (e.step s).isCompleted = false) (hst : (e.step s).isStarted = false) :
    (turn h w context).run e =
      (guarding w s (start h s) >>= fun _ =>
        executeStep h w s context >>= fun _ => conclude h w s).run e := by
  rw [turn_of_incomplete hs hc, run_bind, runStep_of_unstarted hst, ← bind_assoc]
  rfl

end Cases

/-- A step that is started gets the time that the clock reads after its hook. -/
theorem start_starts (h : Hooks σ γ) (s : StepId) (e : Engine σ) :
    (start h s).Ends e
      (fun _ e₁ => ∃ e₀, (h.starting s).run e = (.ok (), e₀) ∧
        e₁.Alike (e₀.mapStep s ({ · with state := .started, startTime := e₀.clock.now })))
      (fun _ _ => True) := by
  rw [start_eq, ends_bind]
  refine (ends_run (h.starting s) e).mono (fun _ e₀ hr => ?_) fun _ _ _ => trivial
  simp only [startHooked, ends_bind, ends_get, ends_failIf]
  split
  · trivial
  · exact (startStep_ends s e₀).mono (fun _ _ he => ⟨e₀, hr, he.2.2⟩) fun _ _ _ => trivial

section Simulation

variable (hq : h.Quiet) (hf : h.Falters L h')
  (hclock : ∀ {k a a'}, (L k).beyond a a' → a.clock.now ≠ Instant.unset)
include hq hf hclock

omit hf hclock in
/-- Once the current step has been started, the turn can be taken up with its execution. -/
theorem EnRoute.started (hu : EnRoute own w n e) (hs : (e.workflow w).current = s)
    (hc : (e.step s).isCompleted = false) (hp : (e.step s).isPending = false)
    (hnow : ∀ e₀, (h.starting s).run e = (.ok (), e₀) → e₀.clock.now ≠ Instant.unset)
    (hr : (start h s).run e = (.ok (), e₁)) :
    EnRoute own w n e₁ ∧ (e₁.workflow w).current = s ∧ (e₁.step s).isCompleted = false ∧
      (e₁.step s).isStarted = true ∧ (e₁.step s).isPending = false := by
  subst hs
  obtain ⟨e₀, hr₀, he⟩ := (start_starts h _ e).of_ok hr
  have hcore : e₀.core = e.core := by
    have hquiet := hq.starting (e.workflow w).current e
    rwa [hr₀] at hquiet
  have hw : Worked (fun _ => []) (e.workflow w).current e e₁ := by
    have hwork : (start h (e.workflow w).current).Always (Worked (fun _ => []) (e.workflow w).current) :=
      always_start worked_mapStep fun e => worked_of_core (hq.starting _ e) nofun
    have h₁ := hwork e
    rwa [hr] at h₁
  have hstep : e₁.step (e.workflow w).current =
      { e.step (e.workflow w).current with state := .started, startTime := e₀.clock.now } := by
    have hhas := (hasStep_of_core hcore _).mpr (hu.hasStep _ hu.inside)
    rw [step_of_core he.core, step_mapStep_self _ hhas, step_of_core hcore]
  have hstarted : (e₁.step (e.workflow w).current).isStarted = true := by
    rw [hstep]
    exact bne_iff_ne.mpr (hnow e₀ hr₀)
  have hwf := hw.workflow w
  refine ⟨⟨?_, by rw [hwf, hu.running]⟩, by rw [hwf], by rw [hstep]; rfl, hstarted, ?_⟩
  · refine hu.toDrivable.of_worked hw rfl ((hw.hasWorkflow w).mpr hu.hasWorkflow) (by rw [hwf]) fun _ => ?_
    intro hn
    rw [hstarted] at hn
    contradiction
  · -- Whether a decision has been put to its actor does not depend on its start.
    rw [hstep]
    unfold Step.isPending at hp ⊢
    rw [hc] at hp
    exact hp

omit hq in
theorem now_after_starting (hl : Like (L k) e e') (ho : e.Open s) {e₀ : Engine σ}
    (hr : (h.starting s).run e = (.ok (), e₀)) : e₀.clock.now ≠ Instant.unset := by
  have hends := hf.starting k s e e' hl ho () e₀ hr
  rcases hr' : (h'.starting s).run e' with ⟨x | u, e₀'⟩
  · exact (hends.of_error hr').elim
  · exact hclock (hends.of_ok hr').2.beyond

/-- A turn with hooks that falter comes to the same, or it can be taken up again. -/
theorem follows_turn (hu : EnRoute own w n e) (hl : Like (L k) e e') :
    Follows (Like (L k)) Eq (Resumable L k (EnRoute own w n) (turn h w context) e)
      (turn h w context) (turn h' w context) e e' := by
  obtain ⟨s, hs⟩ : ∃ s, (e.workflow w).current = s := ⟨_, rfl⟩
  have hs' : (e'.workflow w).current = s := (hl.workflow w).current ▸ hs
  have hst := hl.step s
  cases hc : (e.step s).isCompleted
  case true =>
    have hc' : (e'.step s).isCompleted = true := hst.isCompleted ▸ hc
    exact (agree_conclude (hf.observe k) hl).follows.congr (turn_of_completed hs hc)
      (turn_of_completed hs' hc')
  have ho : e.Open s := ⟨hs ▸ hu.hasStep _ hu.inside, hc⟩
  have hc' : (e'.step s).isCompleted = false := hst.isCompleted ▸ hc
  have hpend : (e'.step s).isPending = (e.step s).isPending := hst.isPending.symm
  cases hstart : (e.step s).isStarted
  case false =>
    have hstart' : (e'.step s).isStarted = false := hst.isStarted ▸ hstart
    have hp : (e.step s).isPending = false := by
      subst hs
      exact hu.proper_all hu.inside hstart
    refine Follows.congr ?_ (turn_of_unstarted hs hc hstart) (turn_of_unstarted hs' hc' hstart')
    have hfirst : Follows (Like (L k)) Quietly (Recoverable L k s e) (start h s) (start h' s) e e' :=
      (follows_start hf hl ho).mono fun _ _ => False.elim
    refine ((follows_guarding hfirst).mono ?_).bind fun _ _ e₁ e₁' hr _ hl₁ => ?_
    · rintro x e₁' ⟨j, hj, hl₁⟩
      exact ⟨j, e, hj, hl₁, hu, fun _ _ h => h⟩
    -- A failure from here on leaves the step started.
    have hnow : ∀ e₀, (h.starting s).run e = (.ok (), e₀) → e₀.clock.now ≠ Instant.unset :=
      fun _ => now_after_starting hf hclock hl ho
    obtain ⟨hu₁, hs₁, hc₁, hstart₁, hp₁⟩ := hu.started hq hs hc hp hnow (run_guarding_of_ok hr)
    have ho₁ : e₁.Open s := ⟨hs₁ ▸ hu₁.hasStep _ hu₁.inside, hc₁⟩
    refine (follows_executeStep hf hl₁ ho₁).mono ?_
    rintro x e₂' ⟨j, hj, hl₂⟩
    refine ⟨j, e₁, hj, hl₂, hu₁, fun a e₂ hturn => ?_⟩
    rw [turn_of_unstarted hs hc hstart, run_bind_of_ok hr] at hturn
    rwa [turn_of_started hs₁ hc₁ hstart₁ hp₁]
  case true =>
    have hstart' : (e'.step s).isStarted = true := hst.isStarted ▸ hstart
    cases hp : (e.step s).isPending
    case true =>
      exact (agree_conclude (hf.observe k) hl).follows.congr (turn_of_pending hs hc hstart hp)
        (turn_of_pending hs' hc' hstart' (hpend.trans hp))
    case false =>
      refine Follows.congr ?_ (turn_of_started hs hc hstart hp)
        (turn_of_started hs' hc' hstart' (hpend.trans hp))
      refine (follows_executeStep hf hl ho).mono ?_
      rintro x e₁' ⟨j, hj, hl₁⟩
      exact ⟨j, e, hj, hl₁, hu, fun _ _ h => h⟩

end Simulation

/-! ## Advancing -/

/-- After a turn that goes on, the traversal has one turn less. -/
theorem traverse_succ (hr : (turn h w context).run e = (.ok .goOn, e₁)) (turns : Nat) :
    (traverse h w context (turns + 1)).run e = (traverse h w context turns).run e₁ := by
  rw [traverse, run_bind, hr]

/-- A traversal that succeeds does so with more turns left, too. -/
theorem traverse_of_le {turns more : Nat} (hle : turns ≤ more) {state : WorkflowState}
    (hr : (traverse h w context turns).run e = (.ok state, e₁)) :
    (traverse h w context more).run e = (.ok state, e₁) := by
  induction turns generalizing e more with
  | zero => cases hr
  | succ turns ih =>
    obtain ⟨more, rfl⟩ := Nat.exists_eq_add_of_le' (Nat.le_trans (Nat.le_add_left 1 turns) hle)
    unfold traverse at hr ⊢
    obtain ⟨progress, e₂, hturn, hr⟩ := exists_of_run_bind hr
    rw [run_bind_of_ok hturn]
    cases progress with
    | stop state => exact hr
    | goOn => exact ih (Nat.le_of_succ_le_succ hle) hr

section Simulation

variable (hq : h.Quiet) (hf : h.Falters L h')
  (hclock : ∀ {k a a'}, (L k).beyond a a' → a.clock.now ≠ Instant.unset)
include hq hf hclock

/-- By induction on the turns that are left to the traversal that succeeds; the other one has as many. -/
theorem follows_traverse {turns turns' : Nat} (hle : turns ≤ turns') (hu : EnRoute own w n e)
    (hl : Like (L k) e e') :
    Follows (Like (L k)) Eq (Resumable L k (EnRoute own w n) (traverse h w context turns) e)
      (traverse h w context turns) (traverse h' w context turns') e e' := by
  induction turns generalizing e e' turns' with
  | zero => exact fun _ _ hr => nomatch hr
  | succ turns ih =>
    obtain ⟨turns', rfl⟩ := Nat.exists_eq_add_of_le' (Nat.le_trans (Nat.le_add_left 1 turns) hle)
    have hturn : Follows (Like (L k)) Eq (Resumable L k (EnRoute own w n) (turn h w context) e)
        (turn h w context) (turn h' w context) e e' := follows_turn hq hf hclock hu hl
    refine (hturn.mono fun _ _ hn => hn.bind _).bind fun progress _ e₁ e₁' hr hp hl₁ => ?_
    subst hp
    cases progress with
    | stop state => exact (agree_pure rfl hl₁).follows
    | goOn =>
      have hu₁ : EnRoute own w n e₁ := (hu.ends_turn hq).of_ok hr
      refine (ih (Nat.le_of_succ_le_succ hle) hu₁ hl₁).mono ?_
      rintro x e₂' ⟨j, e₂, hj, hl₂, hu₂, hsame⟩
      refine ⟨j, e₂, hj, hl₂, hu₂, fun state e₃ htrav => ?_⟩
      exact traverse_of_le (Nat.le_succ turns)
        (hsame state e₃ ((traverse_succ hr turns).symm.trans htrav))

omit hq hf hclock in
/-- In a workflow that is on its way, to advance is to traverse. -/
theorem EnRoute.advance_run (hu : EnRoute own w n e) :
    (advance h w context).run e = (traverse h w context (n + 1 + h.room)).run e := by
  have henter : (enter h w).run e = (.ok true, e) := by
    unfold enter
    rw [run_bind, run_get]
    dsimp only
    rw [hu.running]
    rfl
  rw [advance_eq_enter, run_bind, henter, ← hu.size]
  rfl

/-- To advance comes to the same, or it can be tried again. -/
theorem follows_advance (hd : Drivable own w n e) (hl : Like (L k) e e') :
    Follows (Like (L k)) Eq (Resumable L k (Drivable own w n) (advance h w context) e)
      (advance h w context) (advance h' w context) e e' := by
  have hrun := advance_eq_enter h w context
  rw [hrun, advance_eq_enter]
  refine ((like_bond w).enter (fun _ _ _ => agree_emit (hf.observe k)) hl).follows.bind
    fun goes _ e₁ e₁' hr hg hl₁ => ?_
  subst hg
  cases goes with
  | false => exact (agree_pure rfl hl₁).follows
  | true =>
    have hu₁ : EnRoute own w n e₁ := (hd.ends_enter hq).of_ok hr
    have hle : e₁.steps.size + 1 + h.room ≤ e₁'.steps.size + 1 + h'.room := by
      rw [hl₁.size]
      exact Nat.add_le_add_left hf.room _
    refine (follows_traverse hq hf hclock hle hu₁ hl₁).mono ?_
    rintro x e₂' ⟨j, e₂, hj, hl₂, hu₂, hsame⟩
    refine ⟨j, e₂, hj, hl₂, hu₂.toDrivable, fun state e₃ hadv => ?_⟩
    rw [run_bind_of_ok hr] at hadv
    rw [← hrun, hu₂.advance_run, ← hu₁.size]
    exact hsame state e₃ hadv

end Simulation

/-! ## Trying again -/

/-- What can be tried again succeeds at last, if it may be tried often enough. -/
theorem follows_retry {P : Engine σ → Prop} {m : Act σ α} {m' : Act τ α}
    (hstep : ∀ k e e', P e → Like (L k) e e' →
      Follows (Like (L k)) Eq (Resumable L k P m e) m m' e e')
    (hk : k ≤ n) (hp : P e) (hl : Like (L k) e e') {a : α} (hr : m.run e = (.ok a, e₁)) :
    ∃ j e₁', j ≤ k ∧ (retry n m').run e' = (.ok a, e₁') ∧ Like (L j) e₁ e₁' := by
  -- By induction on the attempts that are left; each failure leaves fewer failures.
  induction n generalizing k e e' with
  | zero =>
    have hends := hstep k e e' hp hl a e₁ hr
    rcases hr' : m'.run e' with ⟨x | a', e₁'⟩
    · obtain ⟨j, -, hj, -⟩ := hends.of_error hr'
      exact absurd hj (by omega)
    · obtain ⟨rfl, hl₁⟩ := hends.of_ok hr'
      exact ⟨k, e₁', Nat.le_refl k, hr', hl₁⟩
  | succ n ih =>
    have hends := hstep k e e' hp hl a e₁ hr
    unfold retry
    rw [run_tryCatch]
    rcases hr' : m'.run e' with ⟨x | a', e₁'⟩
    · obtain ⟨j, e₂, hj, hl₂, hp₂, hsame⟩ := hends.of_error hr'
      obtain ⟨i, e₃', hi, hr₃, hl₃⟩ := ih (by omega) hp₂ hl₂ (hsame a e₁ hr)
      exact ⟨i, e₃', by omega, hr₃, hl₃⟩
    · obtain ⟨rfl, hl₁⟩ := hends.of_ok hr'
      exact ⟨k, e₁', Nat.le_refl k, rfl, hl₁⟩

/-! ## Whole runs -/

/-- A move in driving a workflow: to advance it, or to resolve the decision that it waits for. -/
inductive Move (γ : Type) where
  | advance (context : γ)
  | resolve (o : Outcome)

/-- Makes a move. To advance is tried up to `n` times more as long as it fails. -/
def play (n : Nat) (h : Hooks σ γ) (w : WorkflowId) : Move γ → Act σ Unit
  | .advance context => do let _ ← retry n (advance h w context)
  | .resolve o => do resolve ((← get).workflow w).current o

theorem run_play_advance (hr : (play n h w (.advance context)).run e = (.ok (), e₁)) :
    ∃ state, (retry n (advance h w context)).run e = (.ok state, e₁) := by
  obtain ⟨state, e₂, hadv, hr⟩ := exists_of_run_bind hr
  cases hr
  exact ⟨state, hadv⟩

/-- A run is the first move and then the others. -/
theorem run_plays_cons (n : Nat) (h : Hooks σ γ) (move : Move γ) (moves : List (Move γ))
    (e : Engine σ) :
    ((move :: moves).forM (play n h w)).run e =
      (play n h w move >>= fun _ => moves.forM (play n h w)).run e := rfl

section Simulation

variable (hq : h.Quiet) (hf : h.Falters L h')
  (hclock : ∀ {k a a'}, (L k).beyond a a' → a.clock.now ≠ Instant.unset)
include hq

theorem Drivable.of_play (hd : Drivable own w n e) (move : Move γ)
    (hr : (play 0 h w move).run e = (.ok (), e₁)) : Drivable own w n e₁ := by
  cases move with
  | advance context =>
    obtain ⟨state, hadv⟩ := run_play_advance hr
    exact (hd.ends_advance hq).of_ok hadv
  | resolve o => exact (hd.ends_resolve o).of_ok hr

include hf hclock

theorem follows_play {m : Nat} (hk : k ≤ m) (hd : Drivable own w n e) (hl : Like (L k) e e')
    (move : Move γ) (hr : (play 0 h w move).run e = (.ok (), e₁)) :
    ∃ j e₁', j ≤ k ∧ (play m h' w move).run e' = (.ok (), e₁') ∧ Like (L j) e₁ e₁' := by
  cases move with
  | advance context =>
    obtain ⟨state, hadv⟩ := run_play_advance hr
    obtain ⟨j, e₁', hj, hr', hl₁⟩ := follows_retry (n := m)
      (fun _ _ _ hd hl => follows_advance hq hf hclock hd hl) hk hd hl hadv
    refine ⟨j, e₁', hj, ?_, hl₁⟩
    unfold play
    rw [run_bind, hr']
    rfl
  | resolve o =>
    have hagree : Agree (Like (L k)) Quietly (play 0 h w (.resolve o))
        (play m h' w (.resolve o)) e e' := by
      apply agree_get_bind
      rw [(hl.workflow w).current]
      exact (like_bond default).resolve trivial hl ((L k).outcome_refl o)
    obtain ⟨⟨⟩, e₁', hr', -, hl₁⟩ := hagree.of_ok hr
    exact ⟨k, e₁', Nat.le_refl k, hr', hl₁⟩

/-- A run that succeeds is followed by the hooks that falter, if each move may be tried often enough. -/
theorem follows_plays {m : Nat} (hk : k ≤ m) (hd : Drivable own w n e) (hl : Like (L k) e e')
    (moves : List (Move γ)) (hr : (moves.forM (play 0 h w)).run e = (.ok (), e₁)) :
    ∃ j e₁', j ≤ k ∧ (moves.forM (play m h' w)).run e' = (.ok (), e₁') ∧ Like (L j) e₁ e₁' := by
  induction moves generalizing k e e' with
  | nil =>
    cases hr
    exact ⟨k, e', Nat.le_refl k, rfl, hl⟩
  | cons move moves ih =>
    rw [run_plays_cons] at hr
    obtain ⟨⟨⟩, e₂, hmove, hr⟩ := exists_of_run_bind hr
    obtain ⟨j, e₂', hj, hr₂, hl₂⟩ := follows_play hq hf hclock hk hd hl move hmove
    obtain ⟨i, e₁', hi, hr₁, hl₁⟩ := ih (by omega) (hd.of_play hq move hmove) hl₂ hr
    refine ⟨i, e₁', by omega, ?_, hl₁⟩
    rw [run_plays_cons, run_bind_of_ok hr₂]
    exact hr₁

end Simulation

end Engine

end ApprovalFlow
