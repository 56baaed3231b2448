import ApprovalFlow.Proofs.ManagerInvariants
import ApprovalFlow.Proofs.StepBinding

/-!
# Walks without cycles

A workflow with a graph without cycles, the only one of its manager, stays on its walk whatever is done with
it by way of the manager (`OnCourse.next`): no `advance` comes to a successor that is completed already. Hooks
of steps are called only for the step that the walk has come to.
-/

namespace ApprovalFlow

open Act

variable {σ γ : Type}

/-- A call of a hook for a step, with the steps as the hook found them. -/
structure Call where
  step : StepId
  found : StepId → Step

def Engine.call (e : Engine σ) (s : StepId) : Call := ⟨s, e.step⟩

/-- Hooks that call no operation of the engine, and log each call of a hook for a step. -/
structure Hooks.Reports (h : Hooks σ γ) (calls : σ → List Call) : Prop where
  quiet : h.Quiet
  starting : ∀ s, (h.starting s).Always fun e e' => calls e'.host = calls e.host ++ [e.call s]
  execute : ∀ s context, (h.execute s context).Always fun e e' =>
    calls e'.host = calls e.host ++ [e.call s]
  present : ∀ s context, (h.present s context).Always fun e e' =>
    calls e'.host = calls e.host ++ [e.call s]
  observe : ∀ l event, (h.observe l event).Always fun e e' => calls e'.host = calls e.host

namespace Engine

variable {h : Hooks σ γ} {w : WorkflowId} {s : StepId} {m : ManagerId} {context : γ} {e e' e'' : Engine σ}

/-- Hooks have been called only as `p` says. -/
def CallsOnly (calls : σ → List Call) (p : Call → Prop) (e e' : Engine σ) : Prop :=
  ∃ new, calls e'.host = calls e.host ++ new ∧ ∀ c ∈ new, p c

section CallsOnly

variable {calls : σ → List Call} {p q : Call → Prop}

instance : IsPreorder (Engine σ) (CallsOnly calls p) where
  refl _ := ⟨[], (List.append_nil _).symm, nofun⟩
  trans _ _ _ := by
    rintro ⟨new, hn, hp⟩ ⟨new', hn', hp'⟩
    refine ⟨new ++ new', by rw [hn', hn, List.append_assoc], fun c hc => ?_⟩
    exact (List.mem_append.mp hc).elim (hp c) (hp' c)

theorem CallsOnly.mono (hc : CallsOnly calls p e e') (hpq : ∀ c, p c → q c) : CallsOnly calls q e e' := by
  obtain ⟨new, hn, hp⟩ := hc
  exact ⟨new, hn, fun c h => hpq c (hp c h)⟩

theorem callsOnly_of_unseen (hc : Unseen calls e e') : CallsOnly calls p e e' :=
  ⟨[], Eq.trans hc (List.append_nil _).symm, nofun⟩

theorem callsOnly_call (hc : calls e'.host = calls e.host ++ [e.call s]) (hp : p (e.call s)) :
    CallsOnly calls p e e' :=
  ⟨[e.call s], hc, fun _ h => List.mem_singleton.mp h ▸ hp⟩

end CallsOnly

structure Sound (base : Engine σ) (own : StepId → Prop) (w : WorkflowId) (e : Engine σ) : Prop where
  walking : Walking (fun _ => []) own w e
  persists : Persists base e

/-- The call is one for the step that the workflow has come to on its walk. -/
def OnWalk (base : Engine σ) (own : StepId → Prop) (w : WorkflowId) (c : Call) : Prop :=
  ∃ e, Sound base own w e ∧ c = e.call (e.workflow w).current

/-- The step has been worked on, and if it was the one to come to, hooks were called as is due. -/
structure Tried (base : Engine σ) (own : StepId → Prop) (w : WorkflowId) (calls : σ → List Call) (s : StepId)
    (e e' : Engine σ) : Prop where
  worked : Worked (fun _ => []) s e e'
  calls : Sound base own w e → (e.workflow w).current = s → CallsOnly calls (OnWalk base own w) e e'

structure Proceeds (base : Engine σ) (own : StepId → Prop) (w : WorkflowId) (calls : σ → List Call)
    (e e' : Engine σ) : Prop where
  sound : Sound base own w e'
  calls : CallsOnly calls (OnWalk base own w) e e'

section Sound

variable {base : Engine σ} {own : StepId → Prop} {calls : σ → List Call} {rank : StepId → Nat}

theorem Sound.of_worked (hs : Sound base own w e)
    (hw : Worked (fun _ => []) (e.workflow w).current e e') : Sound base own w e' :=
  ⟨hs.walking.of_near (near_of_worked hw), IsTrans.trans _ _ _ hs.persists (persists_of_worked hw)⟩

theorem Sound.of_core (hs : Sound base own w e) (hc : e'.core = e.core) : Sound base own w e' :=
  ⟨hs.walking.of_near (near_of_core hc fun _ h => nomatch h),
    IsTrans.trans _ _ _ hs.persists (persists_of_core hc)⟩

theorem Sound.proceeds (hs : Sound base own w e) : Proceeds base own w calls e e := ⟨hs, refl e⟩

theorem Proceeds.trans (h : Proceeds base own w calls e e') (h' : Proceeds base own w calls e' e'') :
    Proceeds base own w calls e e'' := ⟨h'.sound, IsTrans.trans _ _ _ h.calls h'.calls⟩

instance : IsPreorder (Engine σ) (Tried base own w calls s) where
  refl e := ⟨refl e, fun _ _ => refl e⟩
  trans e e' e'' h h' := by
    refine ⟨IsTrans.trans _ _ _ h.worked h'.worked, fun hs hcur => ?_⟩
    have hs' : Sound base own w e' := hs.of_worked (hcur ▸ h.worked)
    exact IsTrans.trans _ _ _ (h.calls hs hcur) (h'.calls hs' (by rw [h.worked.workflow]; exact hcur))

/-- What follows the step that the workflow has come to is still ahead. -/
theorem Sound.ahead (hs : Sound base own w e)
    (hrank : ∀ s, own s → ∀ t ∈ base.targets s, rank s < rank t) {t : StepId}
    (ht : (e.step (e.workflow w).current).next? (e.step (e.workflow w).current).outcome = some t) :
    (e.step t).Fresh ∧ t ∉ (e.workflow w).walk :=
  hs.walking.ahead (fun s hown t ht => hrank s hown t (hs.persists.targets s ▸ ht)) (mem_targets_of_next? ht)

variable (hr : h.Reports calls)
include hr

/-- Running the step that the workflow has come to. -/
theorem runStep_tried : (runStep h w s context).Always (Tried base own w calls s) := by
  have hcall : ∀ {e e' : Engine σ}, e'.core = e.core → calls e'.host = calls e.host ++ [e.call s] →
      Tried base own w calls s e e' := fun {e e'} hc hn =>
    ⟨worked_of_core hc (fun _ h => nomatch h), fun hs hcur => callsOnly_call hn ⟨e, hs, by rw [hcur]⟩⟩
  refine always_runStep (fun f hf ha => ?_) (fun e => ?_) (fun e => ?_) (fun e => ?_) w
  · exact ⟨worked_mapStep f hf ha, fun _ _ => callsOnly_of_unseen (congrArg calls ha.host)⟩
  · exact hcall (hr.quiet.starting s e) (hr.starting s e)
  · exact hcall (hr.quiet.execute s context e) (hr.execute s context e)
  · exact hcall (hr.quiet.present s context e) (hr.present s context e)

theorem emit_uncalled (kind : EventKind) : (emit h w kind).Always (Unseen calls) :=
  (sustains_unseen (w := w)).emit hr.observe kind

theorem Sound.calls_turn (hs : Sound base own w e) :
    (turn h w context).Ends e (fun _ => CallsOnly calls (OnWalk base own w) e)
      (fun _ => CallsOnly calls (OnWalk base own w) e) := by
  unfold turn
  rw [ends_bind, ends_get, ends_bind, ends_get, ends_bind]
  have htried : (runStep h w (e.workflow w).current context).Always
      (Tried base own w calls (e.workflow w).current) := runStep_tried hr
  refine ((htried.onlyIf _).ends e).mono (fun _ e₁ h₁ => ?_) fun _ e₁ h₁ => h₁.calls hs rfl
  -- What comes after the step has been run calls for nothing.
  have hrest : ∀ e₂, Unseen calls e₁ e₂ → CallsOnly calls (OnWalk base own w) e e₂ := fun e₂ h₂ =>
    IsTrans.trans _ _ _ (h₁.calls hs rfl) (callsOnly_of_unseen h₂)
  rw [ends_bind, ends_get]
  split
  · exact ((sustains_unseen.leave fun kind _ => emit_uncalled hr kind).ends e₁).mono (fun _ => hrest) fun _ => hrest
  · exact ((sustains_unseen.pause fun kind _ => emit_uncalled hr kind).ends e₁).mono (fun _ => hrest) fun _ => hrest

variable (hrank : ∀ s, own s → ∀ t ∈ base.targets s, rank s < rank t)
include hrank

/-- A turn leads on along the walk: no successor that it comes to is completed. -/
theorem Sound.ends_turn (hs : Sound base own w e) (hrun : (e.workflow w).state = .running) :
    (turn h w context).Ends e
      (after (fun _ => Proceeds base own w calls e)
        fun e' => Proceeds base own w calls e e' ∧ (e'.workflow w).state = .running)
      (fun _ => Proceeds base own w calls e) := by
  have hwalks : (turn h w context).Ends e
      (after (fun _ => Walking (fun _ => []) own w)
        fun e' => Walking (fun _ => []) own w e' ∧ (e'.workflow w).state = .running)
      (fun _ => Walking (fun _ => []) own w) := by
    refine hs.walking.ends_turn hr.quiet h.logs_nil hrun (fun _ _ hk => hk) (fun e₁ hw t ht hc => ?_) context
    rw [← hw.workflow w] at ht
    have hfresh := ((hs.of_worked hw).ahead hrank ht).1
    unfold Step.isCompleted at hc
    rw [hfresh.created] at hc
    contradiction
  have hpersists : (turn h w context).Always Persists :=
    governs_persists.sustains.turn (heed_persists hr.quiet w)
  have hcalls : (turn h w context).Ends e (fun _ => CallsOnly calls (OnWalk base own w) e)
      (fun _ => CallsOnly calls (OnWalk base own w) e) := hs.calls_turn hr
  refine ((hwalks.and (hpersists.ends e)).and hcalls).mono ?_ ?_
  · rintro progress e₁ ⟨⟨hk, hd⟩, hc⟩
    have hd₁ := IsTrans.trans _ _ _ hs.persists hd
    cases progress with
    | stop state => exact ⟨⟨hk, hd₁⟩, hc⟩
    | goOn => exact ⟨⟨⟨hk.1, hd₁⟩, hc⟩, hk.2⟩
  · rintro _ e₁ ⟨⟨hk, hd⟩, hc⟩
    exact ⟨⟨hk, IsTrans.trans _ _ _ hs.persists hd⟩, hc⟩

theorem Sound.ends_process (hs : Sound base own w e) (hrun : (e.workflow w).state = .running) :
    (process h w context).Ends e (fun _ => Proceeds base own w calls e)
      (fun _ => Proceeds base own w calls e) := by
  refine traverse_ends (P := fun e₁ => Proceeds base own w calls e e₁ ∧ (e₁.workflow w).state = .running)
    (fun e₁ h₁ => ?_) (fun _ h₁ => h₁.1) _ ⟨hs.proceeds, hrun⟩
  refine (h₁.1.sound.ends_turn hr hrank h₁.2).mono (fun progress e₂ h₂ => ?_) fun _ _ h₂ => h₁.1.trans h₂
  cases progress with
  | stop state => exact h₁.1.trans h₂
  | goOn => exact ⟨h₁.1.trans h₂.1, h₂.2⟩

/-- Advancing leads on along the walk. -/
theorem Sound.ends_advance (hs : Sound base own w e) :
    (advance h w context).Ends e (fun _ => Proceeds base own w calls e)
      (fun _ => Proceeds base own w calls e) := by
  refine advance_enters (fun _ _ => hs.proceeds) (fun _ _ => hs.proceeds) (hs.ends_process hr hrank)
    fun hst kind _ t e₁ h₁ => ?_
  have hlive : (e.workflow w).state.isTerminal = false := by
    rcases hst with hst | ⟨hst, -⟩ <;> rw [hst] <;> rfl
  -- The workflow is set running, which changes nothing that the walk hangs on, and this is told.
  have hs₁ : Proceeds base own w calls e e₁ := by
    have hk := hs.walking.change hlive (f := (·.resumed t)) rfl nofun ⟨rfl, rfl, rfl, rfl⟩
    have hs' : Sound base own w (e.mapWorkflow w (·.resumed t)) :=
      ⟨hk, IsTrans.trans _ _ _ hs.persists (persists_mapWorkflow rfl)⟩
    exact ⟨hs'.of_core h₁.core, callsOnly_of_unseen (congrArg calls h₁.host)⟩
  have hrun₁ : (e₁.workflow w).state = .running := by
    rw [workflow_of_core h₁.core, workflow_mapWorkflow_self _ hs.walking.hasWorkflow]
    rfl
  have htold : ∀ e₂, Told (fun _ => []) e₁ e₂ → Unseen calls e₁ e₂ → Proceeds base own w calls e e₂ :=
    fun e₂ ht hu => hs₁.trans ⟨⟨hs₁.sound.walking.of_near (near_of_told ht),
      IsTrans.trans _ _ _ hs₁.sound.persists (persists_of_same ht.steps ht.workflows)⟩,
      callsOnly_of_unseen hu⟩
  rw [ends_bind]
  refine (((emit_told hr.quiet h.logs_nil w kind).ends e₁).and ((emit_uncalled hr kind).ends e₁)).mono
    ?_ fun _ e₂ h₂ => htold e₂ h₂.1 h₂.2
  rintro _ e₂ ⟨ht, hu⟩
  have hs₂ := htold e₂ ht hu
  refine (hs₂.sound.ends_process hr hrank ?_).mono (fun _ _ => hs₂.trans) fun _ _ => hs₂.trans
  rw [workflow_of_workflows ht.workflows]
  exact hrun₁

omit hrank in
/-- Aborting leaves the workflow where it is on its walk. -/
theorem Sound.ends_abort (hs : Sound base own w e) :
    (abort h w).Ends e (fun _ => Proceeds base own w calls e) (fun _ => Proceeds base own w calls e) := by
  have hwalks := hs.walking.ends_abort hr.quiet h.logs_nil
  have hpersists := (governs_persists.abort (w := w) (persists_observe hr.quiet)).ends e
  have hcalls := (sustains_unseen.abort fun kind _ => emit_uncalled (w := w) hr kind).ends e
  refine ((hwalks.and hpersists).and hcalls).mono ?_ ?_
  all_goals
    rintro _ e₁ ⟨⟨hk, hd⟩, hc⟩
    exact ⟨⟨hk, IsTrans.trans _ _ _ hs.persists hd⟩, callsOnly_of_unseen hc⟩

end Sound

/-! ## What is done by way of the manager -/

theorem governs_unseen {κ : Type} {log : σ → κ} : Governs (Unseen log) where
  toBears := (sustains_unseen (w := ⟨0⟩)).toBears
  workflow _ _ _ _ := rfl
  bind _ _ _ _ := rfl
  reassign _ _ _ _ := rfl

def Awaits (m : ManagerId) (w : WorkflowId) (e : Engine σ) : Prop :=
  ∀ s ∈ (e.desk m).queue, (e.step s).isCompleted = true ∨
    (e.workflow w).current = s ∧ (e.workflow w).state = .waiting

structure Steered (base : Engine σ) (m : ManagerId) (own : StepId → Prop) (w : WorkflowId)
    (calls : σ → List Call) (e e' : Engine σ) : Prop extends Proceeds base own w calls e e' where
  awaits : Awaits m w e'

/-- The workflow `w`, the only one of the manager `m`, is on its course. -/
structure OnCourse (base : Engine σ) (m : ManagerId) (own : WorkflowId → StepId → Prop) (w : WorkflowId)
    (e : Engine σ) : Prop extends Orderly m (· = w) own e where
  sound : Sound base (own w) w e
  awaits : Awaits m w e

section Course

variable {base : Engine σ} {own : WorkflowId → StepId → Prop} {calls : σ → List Call}
  {rank : StepId → Nat} {o : Outcome} {actor : Option Actor}

theorem Awaits.of_answered (ha : Awaits m w e) (h' : Answered m s e e') : Awaits m w e' := by
  intro t ht
  have hq : t ∈ (e.desk m).queue := h'.steady.queue t ht
  rw [h'.steady.workflow]
  refine (ha t hq).imp_left fun hc => ?_
  by_cases hts : t = s
  · rw [hts] at hc ⊢
    exact (h'.self.final hc).1
  · rw [h'.others t hts]
    exact hc

/-- Advancing a workflow that waits for an answer does nothing, and otherwise all of them are answered. -/
theorem Awaits.ends_advance (ha : Awaits m w e) (hready : Ready m (own w) w e) (hq : h.Quiet) :
    (advance h w context).Ends e (fun _ => Awaits m w) (fun _ => Awaits m w) := by
  by_cases hask : e.Asks w
  · unfold advance
    simp only [ends_bind, ends_get, ends_failIf, hask.waiting, hask.unanswered]
    exact ha
  have hall : ∀ s ∈ (e.desk m).queue, (e.step s).isCompleted = true := by
    intro s hs
    rcases ha s hs with hd | ⟨hcur, hst⟩
    · exact hd
    · rw [← Bool.not_eq_false]
      exact fun hd => hask ⟨hst, by rw [hcur]; exact hd⟩
  have hdone : ∀ {e'}, Conduct h.Silent m (own w) w e e' → Awaits m w e' := fun hc s hs =>
    (hc.effect.queued hs).imp (fun hs => hc.confined.final s (hall s hs)) fun hs =>
      ⟨hs.1.symm, hs.2.waiting⟩
  exact (hready.conduct_advance hq context).mono (fun _ _ => hdone) fun _ _ => hdone

/-- What the workflow waits for when it is aborted is completed by that. -/
theorem Awaits.of_aborted {silent : Prop} (ha : Awaits m w e) (hc : Conduct silent m (own w) w e e')
    (hk : Walking (fun _ => []) (own w) w e') (hcur : (e'.workflow w).current = (e.workflow w).current) :
    Awaits m w e' := by
  intro s hs
  rcases hc.effect.queued hs with hs | ⟨hs, hask⟩
  · rcases ha s hs with hd | ⟨hs', hst⟩
    · exact .inl (hc.confined.final s hd)
    cases hd : (e.step s).isCompleted
    case true => exact .inl (hc.confined.final s hd)
    rcases hc.asking ⟨hst, by rw [hs']; exact hd⟩ with ⟨hask, -⟩ | hover
    · exact .inr ⟨hcur.trans hs', hask.waiting⟩
    · rw [← hs', ← hcur]
      exact .inl (hk.done _ (List.mem_of_getLast? (hk.terminal.mp hover)))
  · exact .inr ⟨hs.symm, hask.waiting⟩

/-- Where no step is lost and none is worked on but the one that the workflow has come to, it stays there. -/
theorem Sound.of_persists {own : StepId → Prop} (hs : Sound base own w e) (hp : Persists e e')
    (hwf : e'.workflows = e.workflows) (hsize : e'.steps.size = e.steps.size)
    (hfresh : ∀ t, t ≠ (e.workflow w).current → (e.step t).Fresh → (e'.step t).Fresh) :
    Sound base own w e' := by
  refine ⟨hs.walking.of_near ?_, IsTrans.trans _ _ _ hs.persists hp⟩
  exact
    { workflow := Workflow.eqButListeners_of_eq (workflow_of_workflows hwf w)
      hasWorkflow := (hasWorkflow_of_workflows hwf w).mpr
      hasStep := fun t _ => (hasStep_of_size hsize t).mpr
      successors := fun t _ => Step.successors_of_outline (hp.steps t).outline
      decisions := fun t _ => Step.isDecision_of_outline (hp.steps t).outline
      final := fun t _ => (hp.steps t).final
      fresh := fun t _ => hfresh t
      adds := fun _ _ h => nomatch h }

/-- An answer to what the workflow waits for, or to what is answered already, leaves it where it is. -/
theorem Sound.of_answered {own : StepId → Prop} (hs : Sound base own w e) (h' : Answered m s e e')
    (hd : (e.step s).isCompleted = true ∨ (e.workflow w).current = s) : Sound base own w e' := by
  refine hs.of_persists h'.persists h'.workflows h'.size fun t ht hf => ?_
  -- The answered step is not fresh, unless it is the current one.
  have hts : t ≠ s := by
    rintro rfl
    rcases hd with hd | hd
    · unfold Step.isCompleted at hd
      rw [hf.created] at hd
      contradiction
    · exact ht hd.symm
  rw [h'.others t hts]
  exact hf

/-- Before it has left its first step a workflow has nothing behind it. -/
theorem Walking.beginning {own : StepId → Prop} {seen : σ → List StepId}
    (hk : Walking seen own w e) (hlive : (e.workflow w).state.isTerminal = false)
    (hcur : (e.workflow w).current = (e.workflow w).first) :
    (e.workflow w).history = [] ∧ (e.workflow w).previous = none := by
  have hwalk := hk.walk_eq hlive
  have hhistory : (e.workflow w).history = [] := by
    have hbegins := hk.begins
    have hdistinct := hk.distinct
    rw [hwalk] at hbegins hdistinct
    cases hh : (e.workflow w).history with
    | nil => rfl
    | cons a l =>
      rw [hh] at hbegins hdistinct
      have ha : a = (e.workflow w).current := (Option.some.inj hbegins).trans hcur.symm
      exact absurd (List.mem_append_right l (List.mem_singleton_self _))
        (ha ▸ (List.nodup_cons.mp hdistinct).1)
  refine ⟨hhistory, ?_⟩
  rw [hk.previous, hwalk, hhistory]
  rfl

namespace OnCourse

variable (ho : OnCourse base m own w e)
include ho

/-- A workflow that has not started is the first one that its manager gets. -/
theorem unregistered (hst : (e.workflow w).state = .created) (id : Int) : running? e m id = none := by
  rw [Option.eq_none_iff_forall_ne_some]
  intro v hv
  obtain ⟨rfl, hman, -⟩ := ho.registered id v hv
  exact (ho.newcomers v rfl hst).1.not_managed hman

theorem freeId {op : Operation σ γ} (hop : Manages m (· = w) e op) : FreeId m e op := by
  cases op with
  | start n v context =>
    obtain ⟨-, rfl⟩ := hop
    exact fun hst _ => ho.unregistered hst _
  | _ => trivial

/-- The workflow is still at its beginning when it has been accepted. -/
theorem sound_accepted {n : Int} (hst : (e.workflow w).state = .created) (ha : Accepted m w n e e')
    (hd : Persists e e') : Sound base (own w) w e' := by
  have hk := ho.sound.walking
  obtain ⟨-, hcur, -⟩ := ho.newcomers w rfl hst
  obtain ⟨hhistory, hprevious⟩ := hk.beginning (by rw [hst]; rfl) hcur
  have hfirst : own w (e.workflow w).first := hcur ▸ hk.inside _ (Workflow.current_mem_walk _)
  refine ⟨walking_of_beginning ((ha.hasWorkflow w).mpr hk.hasWorkflow) ?_ ?_ ?_ ?_ ?_
    (fun s hs t ht => ?closed) (fun t ht => (ha.hasStep t).mpr (hk.hasStep t ht))
    (fun t ht hne => ?fresh), IsTrans.trans _ _ _ ho.sound.persists hd⟩
  case closed => exact hk.closed s hs t (ha.targets s ▸ ht)
  case fresh =>
    rw [ha.self] at hne
    rw [ha.steps t hne]
    refine ⟨(hk.outside t ht ?_).1, nofun⟩
    rw [hk.walk_eq (by rw [hst]; rfl), hhistory, hcur]
    exact fun h => hne (List.mem_singleton.mp h)
  all_goals rw [ha.self]
  all_goals assumption

theorem awaits_accepted {n : Int} (hst : (e.workflow w).state = .created) (ha : Accepted m w n e e') :
    Awaits m w e' := by
  intro s hs
  rw [ha.queue] at hs
  obtain ⟨-, v, -, hrun, -⟩ := ho.queued s hs
  rw [ho.unregistered hst] at hrun
  contradiction

section Operations

variable (hr : h.Reports calls) (hrank : ∀ s, own w s → ∀ t ∈ base.targets s, rank s < rank t)
include hr hrank

omit ho in
/-- Whatever came before, a workflow that is ready to be driven proceeds when it is advanced. -/
theorem ends_advance {e₁ : Engine σ} (hp : Proceeds base (own w) w calls e e₁) (ha : Awaits m w e₁)
    (hready : Ready m (own w) w e₁) :
    (advance h w context).Ends e₁
      (fun _ => Steered base m (own w) w calls e) (fun _ => Steered base m (own w) w calls e) :=
  ((hp.sound.ends_advance hr hrank).and (ha.ends_advance hready hr.quiet)).mono
    (fun _ _ h' => ⟨hp.trans h'.1, h'.2⟩) fun _ _ h' => ⟨hp.trans h'.1, h'.2⟩

theorem steered_start :
    (startManaged h m w context).Ends e
      (fun _ => Steered base m (own w) w calls e) (fun _ => Steered base m (own w) w calls e) := by
  have hsame : Steered base m (own w) w calls e e := ⟨ho.sound.proceeds, ho.awaits⟩
  have hm := ho.member w rfl
  unfold startManaged
  simp only [ends_bind, ends_get, ends_failIf]
  by_cases hst : (e.workflow w).state = .created
  case neg =>
    rw [bne_iff_ne.mpr hst, if_pos rfl]
    exact hsame
  obtain ⟨hobs, hcur, hun⟩ := ho.newcomers w rfl hst
  rw [hcur] at hun
  have haccept := accept_ends ho.hasDesk hm.hasWorkflow (hm.hasStep _ (hcur ▸ hm.current)) hst hun
  have hpersists := (governs_persists.enrol (m := m) (w := w)).ends e
  have huncalled : (accept m w >>= fun _ => register m w : Act σ Unit).Always (Unseen calls) :=
    governs_unseen.enrol
  rw [hst, bne_self_eq_false, if_neg Bool.false_ne_true]
  have henrol := (haccept.and hpersists).and (huncalled.ends e)
  rw [ends_bind] at henrol
  refine henrol.mono (fun _ e₁ hreg => hreg.mono ?_ ?_) ?_
  · rintro _ e₁ ⟨⟨⟨n, hacc⟩, hd⟩, hu⟩
    have hp : Proceeds base (own w) w calls e e₁ := ⟨ho.sound_accepted hst hacc hd, callsOnly_of_unseen hu⟩
    exact ends_advance hr hrank hp (ho.awaits_accepted hst hacc)
      (hacc.ready ho.toRegistry rfl hobs hcur)
  all_goals
    rintro _ e₁ ⟨⟨⟨rfl, -⟩, -⟩, -⟩
    exact hsame

omit hrank in
theorem steered_decideQueued :
    (decideQueued h (e.manager m).queue s o actor).Ends e
      (fun _ e₁ => Steered base m (own w) w calls e e₁ ∧ Ready m (own w) w e₁)
      (fun _ e₁ => Steered base m (own w) w calls e e₁ ∧ Ready m (own w) w e₁) := by
  have hunseen : (decideQueued h (e.manager m).queue s o actor).Always (Unseen calls) :=
    governs_unseen.decideQueued hr.observe
  have hgo : ∀ e₁, s ∈ (e.desk m).queue → Answered m s e e₁ → Unseen calls e e₁ →
      Steered base m (own w) w calls e e₁ ∧ Ready m (own w) w e₁ := by
    intro e₁ hs ha hu
    have hd := (ho.awaits s hs).imp_right And.left
    exact ⟨⟨⟨ho.sound.of_answered ha hd, callsOnly_of_unseen hu⟩, ho.awaits.of_answered ha⟩,
      (ho.of_answered ha hs).ready rfl⟩
  refine ((decideQueued_ends hr.quiet ho.hasDesk o actor).and (hunseen.ends e)).mono ?_ ?_
  · rintro _ e₁ ⟨⟨hs, ha⟩, hu⟩
    exact hgo e₁ hs ha hu
  · rintro _ e₁ ⟨rfl | ⟨hs, ha⟩, hu⟩
    · exact ⟨⟨ho.sound.proceeds, ho.awaits⟩, ho.ready rfl⟩
    · exact hgo e₁ hs ha hu

theorem steered_decide (context : γ) :
    (decide h m s o actor context).Ends e
      (fun _ => Steered base m (own w) w calls e) (fun _ => Steered base m (own w) w calls e) := by
  unfold Engine.decide
  simp only [ends_bind, ends_get]
  cases hrun : Engine.running? e m ((e.step s).workflowId.getD 0) with
  | none =>
    dsimp only
    rw [ends_bind]
    unfold numberOf
    rw [ends_bind, ends_get]
    dsimp only
    split <;> exact ⟨ho.sound.proceeds, ho.awaits⟩
  | some v =>
    -- The only workflow that the manager has is advanced after the answer.
    obtain ⟨rfl, -⟩ := ho.registered _ v hrun
    dsimp only
    rw [ends_bind]
    refine (ho.steered_decideQueued hr).mono (fun _ e₁ h₁ => ?_) fun _ e₁ h₁ => h₁.1
    exact ends_advance hr hrank h₁.1.toProceeds h₁.1.awaits h₁.2

omit hr hrank in
theorem steered_reassigned {e' : Engine σ} (hre : Reassigned m e e') (hd : Persists e e')
    (hu : Unseen calls e e') : Steered base m (own w) w calls e e' := by
  refine ⟨⟨ho.sound.of_persists hd hre.workflows hre.size fun t _ hf => ?_, callsOnly_of_unseen hu⟩,
    fun t ht => ?_⟩
  · obtain ⟨a, ha⟩ := hre.steps t
    rw [ha]
    exact ⟨hf.created, hf.unstarted⟩
  rw [hre.desk] at ht
  rw [hre.steady.workflow]
  obtain ⟨a, ha⟩ := hre.steps t
  rw [ha]
  exact ho.awaits t ht

/-- Whatever is done by way of the manager, the workflow stays on its course. -/
theorem next {op : Operation σ γ} (hop : Manages m (· = w) e op) :
    OnCourse base m own w (next h e op) ∧
      CallsOnly calls (OnWalk base (own w) w) e (next h e op) := by
  have horderly := (ho.dealing hr.quiet hop).orderly ho.toOrderly (ho.freeId hop)
  suffices hp : Steered base m (own w) w calls e (Engine.next h e op) from
    ⟨⟨horderly, hp.sound, hp.awaits⟩, hp.calls⟩
  have hready := ho.ready rfl
  have hpersists := next_persists (e := e) hr.quiet hop
  -- Each operation ends with the workflow on a step that the walk has come to.
  cases op with
  | advance v context =>
    have hv : v = w := hop
    subst hv
    rw [next_advance]
    exact (ends_advance hr hrank ho.sound.proceeds ho.awaits hready).state
  | abort v =>
    have hv : v = w := hop
    subst hv
    have hanchored : (abort h v).Always (Anchored v) := flows_anchored.abort fun kind _ =>
      flows_anchored.emit (fun l event => (hr.quiet.observe l event).mono anchored_of_core) kind
    have hboth := ((hready.conduct_abort hr.quiet).and (ho.sound.ends_abort hr)).and (hanchored.ends e)
    have habort : (abort h v).Ends e (fun _ => Steered base m (own v) v calls e)
        (fun _ => Steered base m (own v) v calls e) := by
      refine hboth.mono ?_ ?_
      all_goals
        rintro _ e' ⟨⟨hc, hp⟩, ha⟩
        exact ⟨hp, ho.awaits.of_aborted hc hp.sound.walking ha.current⟩
    exact habort.state
  | start n v context =>
    obtain ⟨rfl, rfl⟩ := hop
    refine Ends.state ?_
    show (startManaged h n v context >>= fun _ => pure ()).Ends e _ _
    rw [ends_bind]
    exact ho.steered_start hr hrank
  | decide n s o actor context =>
    have hn : n = m := hop
    subst hn
    refine Ends.state ?_
    show (decide h n s o actor context >>= fun _ => pure ()).Ends e _ _
    rw [ends_bind]
    exact ho.steered_decide hr hrank context
  | decideQueued q s o actor =>
    have hq : q = (e.manager m).queue := hop
    subst hq
    exact Ends.state ((ho.steered_decideQueued hr).mono (fun _ _ => And.left) fun _ _ => And.left)
  | reassign s actor =>
    refine ho.steered_reassigned ?_ hpersists (governs_unseen.reassignStep e)
    exact (reassign_reassigned ho.hasDesk actor).state
  | reassignQueued q s actor =>
    refine ho.steered_reassigned ?_ hpersists (governs_unseen.reassignQueued hr.observe e)
    exact (reassignQueued_reassigned hr.quiet ho.hasDesk q actor).state
  | resolve | other => exact hop.elim

/-- Along a run the workflow stays on its course, and hooks are called only as is due. -/
theorem along {ops : List (Operation σ γ)} (hops : Along h (Manages m (· = w)) e ops) :
    OnCourse base m own w (runs h e ops) ∧
      CallsOnly calls (OnWalk base (own w) w) e (runs h e ops) := by
  refine runs_invariant (P := fun e' => OnCourse base m own w e' ∧
    CallsOnly calls (OnWalk base (own w) w) e e') ?_ ⟨ho, refl e⟩ hops
  rintro e' op ⟨ho', hc⟩ hop
  obtain ⟨ho'', hc'⟩ := ho'.next hr hrank hop
  exact ⟨ho'', IsTrans.trans _ _ _ hc hc'⟩

end Operations

end OnCourse

end Course

end Engine

end ApprovalFlow
