import ApprovalFlow.Proofs.Retrying

/-!
# Logs of calls, events and failures

A diary lists what listeners were told, the calls of hooks and the failures that were noted on steps. Hooks
can be made to keep one around whatever host they have. Hooks that falter still do so when diaries are
kept, and then the diaries tell that the listeners were told the same, that no hook was called for a step
that was completed, and that the errors of the steps are the failures in the diary (`falters_diarized`).
-/

namespace ApprovalFlow

variable {σ τ γ α : Type}

/-- A host with a diary. A call is noted with whether the step was completed then. -/
structure Diary (σ : Type) where
  inner : σ
  events : List (ListenerId × Event) := []
  calls : List (StepId × Bool) := []
  failures : List (StepId × String) := []

namespace Diary

def told (d : Diary σ) (l : ListenerId) (event : Event) : Diary σ :=
  { d with events := d.events ++ [(l, event)] }

def called (d : Diary σ) (s : StepId) (completed : Bool) : Diary σ :=
  { d with calls := d.calls ++ [(s, completed)] }

/-- A hook has failed. Only failures of business are noted. -/
def failed (d : Diary σ) (s : StepId) (x : Failure) : Diary σ :=
  match x.businessText? with
  | some text => { d with failures := d.failures ++ [(s, text)] }
  | none => d

theorem failed_inner (d : Diary σ) (i : σ) (s : StepId) (x : Failure) :
    failed { d with inner := i } s x = { d.failed s x with inner := i } := by
  unfold failed
  split <;> rfl

def failuresOf (d : Diary σ) (s : StepId) : List String :=
  d.failures.filterMap fun f => if f.1 = s then some f.2 else none

theorem failuresOf_failed (d : Diary σ) (s : StepId) {x : Failure} {text : String}
    (hx : x.businessText? = some text) (t : StepId) :
    (d.failed s x).failuresOf t = d.failuresOf t ++ if s = t then [text] else [] := by
  unfold failed failuresOf
  rw [hx]
  dsimp only
  rw [List.filterMap_append]
  by_cases h : s = t <;> simp [h]

end Diary

namespace Engine

open Act

def withHost (e : Engine σ) (d : τ) : Engine τ := { e with host := d }

/-- The engine as hooks see it that know nothing of the diary. -/
def inside (e : Engine (Diary σ)) : Engine σ := e.withHost e.host.inner

/-- The engine that such hooks leave, with the diary `d`. -/
def under (e : Engine σ) (d : Diary σ) : Engine (Diary σ) := e.withHost { d with inner := e.host }

end Engine

def Act.within (m : Act σ α) : Act (Diary σ) α := fun e =>
  let (r, e₁) := m.run e.inside
  (r, e₁.under e.host)

def Act.call (s : StepId) (m : Act (Diary σ) α) : Act (Diary σ) α := do
  let e ← get
  Engine.updateHost (·.called s (e.step s).isCompleted)
  tryCatch m fun x => do
    Engine.updateHost (·.failed s x)
    throw x

def Hooks.diarized (h : Hooks σ γ) : Hooks (Diary σ) γ where
  starting s := Act.call s (Act.within (h.starting s))
  execute s context := Act.call s (Act.within (h.execute s context))
  present s context := Act.call s (Act.within (h.present s context))
  observe l event := do
    Engine.updateHost (·.told l event)
    Act.within (h.observe l event)
  room := h.room

/-- Two diaries tell of the same events, and the second tells of no call for a completed step, and of the
errors that the steps have got beyond those they had at first. -/
structure Diary.Kept (first errors : StepId → List String) (d : Diary σ) (d' : Diary τ) : Prop where
  events : d.events = d'.events
  calls : ∀ c ∈ d'.calls, c.2 = false
  errors : ∀ s, errors s = first s ++ d'.failuresOf s

theorem Diary.Kept.told {first errors : StepId → List String} {d : Diary σ} {d' : Diary τ}
    (hk : Kept first errors d d') (l : ListenerId) (event : Event) :
    Kept first errors (d.told l event) (d'.told l event) :=
  ⟨congrArg (· ++ [(l, event)]) hk.events, hk.calls, hk.errors⟩

/-- The calls in the first diary do not matter. -/
theorem Diary.Kept.calling {first errors : StepId → List String} {d : Diary σ} {d' : Diary τ}
    (hk : Kept first errors d d') (s : StepId) (completed : Bool) :
    Kept first errors (d.called s completed) d' := ⟨hk.events, hk.calls, hk.errors⟩

/-- A call for a step that is not completed. -/
theorem Diary.Kept.called {first errors : StepId → List String} {d : Diary σ} {d' : Diary τ}
    (hk : Kept first errors d d') (s : StepId) : Kept first errors d (d'.called s false) := by
  refine ⟨hk.events, fun c hc => ?_, hk.errors⟩
  rcases List.mem_append.mp hc with hc | hc
  · exact hk.calls c hc
  · rw [List.mem_singleton.mp hc]

/-- A failure in the second diary, that is noted on the step. -/
theorem Diary.Kept.failed {first errors noted : StepId → List String} {d : Diary σ} {d' : Diary τ}
    (hk : Kept first errors d d') (s : StepId) {x : Failure} {text : String}
    (hx : x.businessText? = some text)
    (hnoted : ∀ t, noted t = errors t ++ if s = t then [text] else []) :
    Kept first noted d (d'.failed s x) := by
  have hd : d'.failed s x = { d' with failures := d'.failures ++ [(s, text)] } := by
    unfold Diary.failed
    rw [hx]
  refine ⟨?_, ?_, fun t => ?_⟩
  · rw [hd]
    exact hk.events
  · rw [hd]
    exact hk.calls
  · rw [hnoted, hk.errors, Diary.failuresOf_failed d' s hx, List.append_assoc]

def Likeness.diarized (L : Likeness σ τ) (first : StepId → List String) :
    Likeness (Diary σ) (Diary τ) where
  outcome := L.outcome
  time := L.time
  beyond a a' :=
    L.beyond { a with host := a.host.inner } { a' with host := a'.host.inner } ∧
      Diary.Kept first a'.errors a.host a'.host
  outcome_refl := L.outcome_refl
  key := L.key
  completion := L.completion
  unset := L.unset
  now h := L.now h.1
  tick h := ⟨L.tick h.1, h.2⟩

namespace Engine

open Act

/-! ## Engines with other hosts -/

section Hosts

variable {σ' τ' : Type} {L : Likeness σ τ} {L' : Likeness σ' τ'} {e : Engine σ} {e' : Engine τ}

/-- What is alike remains so with other hosts, if outcomes and times compare in the same way. -/
theorem Like.withHost (hl : Like L e e') {d : σ'} {d' : τ'} (ho : L.outcome = L'.outcome)
    (ht : L.time = L'.time) (hb : L'.beyond (e.withHost d).surroundings (e'.withHost d').surroundings) :
    Like L' (e.withHost d) (e'.withHost d') := by
  have houtcome : ∀ {o o'}, L.outcome o o' → L'.outcome o o' := fun h => ho ▸ h
  have htime : ∀ {t t'}, L.time t t' → L'.time t t' := fun h => ht ▸ h
  refine ⟨hl.size, fun s => ?_, hl.count, fun w => ?_, hl.queues, hl.managers, hl.contexts, hl.catalog,
    hl.decisions, hb⟩
  · have hs := hl.step s
    have hsuccessors := hs.successors.imp fun _ _ hx => Successor.Like.mk (houtcome hx.outcome) hx.target
    exact ⟨hs.kind, hs.key, hs.isTask, hs.actor, hs.state, houtcome hs.outcome, hsuccessors,
      htime hs.startTime, htime hs.endTime, hs.workflowId, hs.context, hs.decision⟩
  · have hw := hl.workflow w
    exact ⟨hw.key, hw.owner, hw.id, hw.state, hw.first, hw.current, hw.previous, hw.history, hw.context,
      hw.arguments, hw.listeners, htime hw.startTime, htime hw.endTime⟩

end Hosts

section Diaries

variable {L : Likeness σ τ} {first : StepId → List String} {e : Engine (Diary σ)}
  {e' : Engine (Diary τ)}

theorem Like.inside (hl : Like (L.diarized first) e e') : Like L e.inside e'.inside :=
  hl.withHost rfl rfl hl.beyond.1

theorem Like.under {e₁ : Engine σ} {e₁' : Engine τ} {d : Diary σ} {d' : Diary τ} (hl : Like L e₁ e₁')
    (hk : Diary.Kept first e₁'.surroundings.errors d d') :
    Like (L.diarized first) (e₁.under d) (e₁'.under d') :=
  hl.withHost rfl rfl ⟨hl.beyond, hk.events, hk.calls, hk.errors⟩

end Diaries

/-! ## Hooks that know nothing of the diary -/

theorem run_within (m : Act σ α) (e : Engine (Diary σ)) :
    (within m).run e = ((m.run e.inside).1, (m.run e.inside).2.under e.host) := rfl

theorem ends_within {m : Act σ α} {e : Engine (Diary σ)} {Q : α → Engine (Diary σ) → Prop}
    {F : Failure → Engine (Diary σ) → Prop} :
    (within m).Ends e Q F ↔
      m.Ends e.inside (fun a e₁ => Q a (e₁.under e.host)) (fun x e₁ => F x (e₁.under e.host)) := by
  unfold Ends
  rw [run_within]
  rcases m.run e.inside with ⟨_ | _, _⟩ <;> exact Iff.rfl

theorem always_within {m : Act σ α} (hm : m.Always fun e e' => e'.core = e.core) :
    (within m).Always fun e e' => e'.core = e.core := fun e => hm e.inside

theorem always_call {s : StepId} {m : Act (Diary σ) α} (hm : m.Always fun e e' => e'.core = e.core) :
    (call s m).Always fun e e' => e'.core = e.core := by
  refine always_get.bind fun e => Always.bind (fun _ => rfl) fun _ => hm.tryCatch fun x => ?_
  exact Always.bind (fun _ => rfl) fun _ => always_throw x

theorem quiet_diarized {h : Hooks σ γ} (hq : h.Quiet) : h.diarized.Quiet where
  starting s := always_call (always_within (hq.starting s))
  execute s context := always_call (always_within (hq.execute s context))
  present s context := always_call (always_within (hq.present s context))
  observe l event := Always.bind (fun _ => rfl) fun _ => always_within (hq.observe l event)

/-- What a call of a hook comes to. -/
theorem call_ends (s : StepId) (m : Act σ α) (e : Engine (Diary σ)) :
    (call s (within m)).Ends e
      (fun a e₁ => ∃ e₂, m.run e.inside = (.ok a, e₂) ∧
        e₁ = e₂.under (e.host.called s (e.step s).isCompleted))
      (fun x e₁ => ∃ e₂, m.run e.inside = (.error x, e₂) ∧
        e₁ = e₂.under ((e.host.called s (e.step s).isCompleted).failed s x)) := by
  unfold call
  rw [ends_bind, ends_get, ends_bind]
  show Ends _ (e.withHost (e.host.called s (e.step s).isCompleted)) _ _
  rw [ends_tryCatch, ends_within]
  refine (ends_run m e.inside).mono (fun a e₂ hr => ⟨e₂, hr, rfl⟩) fun x e₂ hr => ?_
  rw [ends_bind]
  refine ⟨e₂, hr, ?_⟩
  show e₂.withHost (Diary.failed { e.host.called s (e.step s).isCompleted with inner := e₂.host } s x) = _
  rw [Diary.failed_inner]
  rfl

/-! ## Hooks that falter -/

section Keeping

variable {γ : Type} {L : Nat → Likeness σ τ} {first : StepId → List String} {k : Nat} {s : StepId}
  {e : Engine (Diary σ)} {e' : Engine (Diary τ)} {α' : Type}

/-- The errors of the steps are part of the core. -/
theorem errors_of_core {e e₁ : Engine τ} (hc : e₁.core = e.core) :
    e₁.surroundings.errors = e.surroundings.errors :=
  funext fun t => congrArg Step.errors (step_of_core hc t)

theorem Like.kept {K : Likeness σ τ} (hl : Like (K.diarized first) e e') :
    Diary.Kept first e'.inside.surroundings.errors e.host e'.host := hl.beyond.2

/-- A call for an open step is noted in both diaries, and what is left is alike as without them. -/
theorem follows_call {K : Likeness σ τ} {V : α → α' → Prop} {N : Failure → Engine τ → Prop}
    {m : Act σ α} {m' : Act τ α'} (hl : Like (K.diarized first) e e') (ho : e.Open s)
    (hq : m'.Always fun e e' => e'.core = e.core)
    (hm : Follows (Like K) V N m m' e.inside e'.inside) :
    Follows (Like (K.diarized first)) V
      (fun x e₁' => ∃ e₂', N x e₂' ∧ e₂'.core = e'.inside.core ∧
        e₁' = e₂'.under ((e'.host.called s false).failed s x))
      (call s (within m)) (call s (within m')) e e' := by
  intro a e₁ hr
  have hc' : (e'.step s).isCompleted = false := (hl.step s).isCompleted ▸ ho.2
  obtain ⟨e₂, hr₂, rfl⟩ := (call_ends s m e).of_ok hr
  have hcore := hq.ends e'.inside
  have hcall := call_ends s m' e'
  rw [hc'] at hcall
  refine hcall.mono ?_ ?_
  · rintro a' _ ⟨e₂', hr₂', rfl⟩
    obtain ⟨hv, hl₂⟩ := (hm a e₂ hr₂).of_ok hr₂'
    refine ⟨hv, hl₂.under ?_⟩
    rw [errors_of_core (hcore.of_ok hr₂')]
    exact (hl.kept.called s).calling s _
  · rintro x _ ⟨e₂', hr₂', rfl⟩
    exact ⟨e₂', (hm a e₂ hr₂).of_error hr₂', hcore.of_error hr₂', rfl⟩

/-- What agrees without diaries agrees with them. -/
theorem agree_within {K : Likeness σ τ} {V : α → α' → Prop} {m : Act σ α} {m' : Act τ α'}
    (hl : Like (K.diarized first) e e') (hq : m'.Always fun e e' => e'.core = e.core)
    (hm : Agree (Like K) V m m' e.inside e'.inside) :
    Agree (Like (K.diarized first)) V (within m) (within m') e e' := by
  have hkept : ∀ {e₁'}, (m'.run e'.inside).2 = e₁' →
      Diary.Kept first e₁'.surroundings.errors e.host e'.host := by
    rintro _ rfl
    rw [errors_of_core (hq e'.inside)]
    exact hl.kept
  have hrun := run_within m e
  have hrun' := run_within m' e'
  rcases agree_iff.mp hm with ⟨a, e₁, a', e₁', hr, hr', hv, hl₁⟩ | ⟨x, e₁, e₁', hr, hr', hl₁⟩
  · rw [hr] at hrun
    rw [hr'] at hrun'
    exact agree_iff.mpr (.inl ⟨a, _, a', _, hrun, hrun', hv, hl₁.under (hkept (congrArg Prod.snd hr'))⟩)
  · rw [hr] at hrun
    rw [hr'] at hrun'
    exact agree_iff.mpr (.inr ⟨x, _, _, hrun, hrun', hl₁.under (hkept (congrArg Prod.snd hr'))⟩)

/-- A failure that can be recovered from without a diary can be so with one. -/
theorem recoverable_under (hl : Like ((L k).diarized first) e e') (ho : e.Open s) {x : Failure}
    {e₂' : Engine τ} (hr : Recoverable L k s e.inside x e₂') (hc : e₂'.core = e'.inside.core) :
    Recoverable (fun k => (L k).diarized first) k s e x
      (e₂'.under ((e'.host.called s false).failed s x)) := by
  obtain ⟨text, j, hx, hj, hl₂⟩ := hr
  have hstep : e₂'.HasStep s := (hasStep_of_core hc s).mpr ((hl.hasStep s).mp ho.1)
  refine ⟨text, j, hx, hj, hl₂.under (d := e.host) ?_⟩
  refine (hl.kept.called s).failed s hx fun t => ?_
  -- The error is noted on the step, which is there.
  have ht : e'.inside.surroundings.errors t = (e₂'.step t).errors :=
    (congrFun (errors_of_core hc) t).symm
  rw [ht]
  show ((e₂'.mapStep s _).step t).errors = _
  rw [step_mapStep]
  by_cases hts : t = s
  · rw [if_pos ⟨hts, hstep⟩, if_pos hts.symm]
  · rw [if_neg fun h => hts h.1, if_neg fun h => hts h.symm, List.append_nil]

/-- Hooks that falter do so, too, when diaries are kept. -/
theorem falters_diarized {h : Hooks σ γ} {h' : Hooks τ γ} (hf : h.Falters L h') (hq : h'.Quiet) :
    h.diarized.Falters (fun k => (L k).diarized first) h'.diarized where
  starting k s e e' hl ho := by
    refine (follows_call hl ho (hq.starting s) (hf.starting k s _ _ hl.inside ho)).mono ?_
    rintro x _ ⟨_, hn, -⟩
    exact hn
  execute k s c e e' hl ho := by
    refine (follows_call hl ho (hq.execute s c) (hf.execute k s c _ _ hl.inside ho)).mono ?_
    rintro x _ ⟨_, hn, hc, rfl⟩
    exact recoverable_under hl ho hn hc
  present k s c e e' hl ho := by
    refine (follows_call hl ho (hq.present s c) (hf.present k s c _ _ hl.inside ho)).mono ?_
    rintro x _ ⟨_, hn, hc, rfl⟩
    exact recoverable_under hl ho hn hc
  observe k l event e e' hl := by
    -- What the listener is told is noted in both diaries.
    have htold : Like ((L k).diarized first) (e.inside.under (e.host.told l event))
        (e'.inside.under (e'.host.told l event)) := hl.inside.under (hl.kept.told l event)
    exact agree_within htold (hq.observe l event) (hf.observe k l event _ _ hl.inside)
  room := hf.room

end Keeping

end Engine

end ApprovalFlow
