import ApprovalFlow.Proofs.ObservationLogs
import ApprovalFlow.Proofs.Walk

/-!
# Failures do not show

Driving a workflow whose hooks fail for reasons of business now and then, and trying again, ends as driving
it with hooks that do not fail: in the same states, with the same record, outcomes and contexts, and the
listeners have been told the same. All that is left of the failures are the errors of the steps, and no hook
is called for a step that has completed (`failures_transparent`).
-/

namespace ApprovalFlow

variable {σ τ γ : Type}

/-- The clock never reads the instant that stands for "not set". -/
def Clock.Timely (c : Clock) : Prop := ∀ n, c.reading n ≠ Instant.unset

/-- How the engines of two runs compare: times may differ, and the hosts stand in `ρ`. At most `k` failures
are left to the second host. -/
def Likeness.kin (ρ : σ → τ → Prop) (left : τ → Nat) (k : Nat) : Likeness σ τ where
  outcome := Eq
  time t t' := t = Instant.unset ↔ t' = Instant.unset
  beyond a a' := a.clock.Timely ∧ a'.clock.Timely ∧ ρ a.host a'.host ∧ left a'.host ≤ k
  outcome_refl _ := rfl
  key h := congrArg _ h
  completion h := congrArg _ h
  unset h := h
  now h := ⟨fun h₁ => absurd h₁ (h.1 _), fun h₂ => absurd h₂ (h.2.1 _)⟩
  tick h := h

namespace Engine

open Act

variable {ρ : σ → τ → Prop} {left : τ → Nat} {h : Hooks σ γ} {h' : Hooks τ γ} {w : WorkflowId} {n : Nat}
  {e : Engine σ} {d : τ}

def withDiary (e : Engine σ) : Engine (Diary σ) := e.under { inner := e.host }

/-- Two runs from the engine `e`, of which the second may have failed at times, end alike. -/
structure Transparent (w : WorkflowId) (e : Engine σ) (last : Engine (Diary σ))
    (last' : Engine (Diary τ)) : Prop where
  state : (last'.workflow w).state = (last.workflow w).state
  history : (last'.workflow w).history = (last.workflow w).history
  current : (last'.workflow w).current = (last.workflow w).current
  previous : (last'.workflow w).previous = (last.workflow w).previous
  states : ∀ s, (last'.step s).state = (last.step s).state
  outcomes : ∀ s, (last'.step s).outcome = (last.step s).outcome
  contexts : last'.contexts = last.contexts
  events : last'.host.events = last.host.events
  /-- The failures are on the steps they are of, in order. -/
  errors : ∀ s, (last'.step s).errors = (e.step s).errors ++ last'.host.failuresOf s
  /-- No hook was called for a step that was completed. -/
  calls : ∀ c ∈ last'.host.calls, c.2 = false

theorem Like.transparent {k : Nat} {last : Engine (Diary σ)} {last' : Engine (Diary τ)}
    (hl : Like ((Likeness.kin ρ left k).diarized fun s => (e.step s).errors) last last') :
    Transparent w e last last' where
  state := (hl.workflow w).state.symm
  history := (hl.workflow w).history.symm
  current := (hl.workflow w).current.symm
  previous := (hl.workflow w).previous.symm
  states s := (hl.step s).state.symm
  outcomes s := Eq.symm (hl.step s).outcome
  contexts := hl.contexts.symm
  events := hl.kept.events.symm
  errors := hl.kept.errors
  calls := hl.kept.calls

/-- An engine is like itself with another host that goes with its own. -/
theorem like_withHost {k : Nat} (hclock : e.clock.Timely) (hd : ρ e.host d) (hk : left d ≤ k) :
    Like (.kin ρ left k) e (e.withHost d) where
  size := rfl
  step _ := ⟨rfl, rfl, rfl, rfl, rfl, rfl, List.forall₂_same.mpr fun _ _ => ⟨rfl, rfl⟩, Iff.rfl, Iff.rfl, rfl,
    rfl, rfl⟩
  count := rfl
  workflow _ := ⟨rfl, rfl, rfl, rfl, rfl, rfl, rfl, rfl, rfl, rfl, rfl, Iff.rfl, Iff.rfl⟩
  queues := rfl
  managers := rfl
  contexts := rfl
  catalog := rfl
  decisions := rfl
  beyond := ⟨hclock, hclock, hd, hk⟩

theorem drivable_of_leads (hw : e.HasWorkflow w)
    (hsteps : ∀ s, e.Leads (e.workflow w).current s → e.HasStep s ∧ (e.step s).Proper) :
    Drivable (e.Leads (e.workflow w).current) w e.steps.size e where
  hasWorkflow := hw
  hasStep s hs := (hsteps s hs).1
  closed _ hs _ ht := hs.tail ht
  inside := .refl
  size := rfl
  proper s hs _ := (hsteps s hs).2

/-- Where a run succeeds with hooks that do not fail, it does so with hooks that falter, if each `advance`
may be tried again as often as there are failures; and the failures do not show. -/
theorem failures_transparent (hq : h.Quiet) (hq' : h'.Quiet) (hf : h.Falters (.kin ρ left) h')
    (hw : e.HasWorkflow w)
    (hsteps : ∀ s, e.Leads (e.workflow w).current s → e.HasStep s ∧ (e.step s).Proper)
    (hclock : e.clock.Timely) (hd : ρ e.host d) (hn : left d ≤ n) {moves : List (Move γ)}
    {last : Engine (Diary σ)}
    (clean : (moves.forM (play 0 h.diarized w)).run e.withDiary = (.ok (), last)) :
    ∃ last', (moves.forM (play n h'.diarized w)).run (e.withHost d).withDiary = (.ok (), last') ∧
      Transparent w e last last' := by
  have hdrive : Drivable (e.Leads (e.workflow w).current) w e.steps.size e.withDiary :=
    { drivable_of_leads hw hsteps with }
  have hkept : Diary.Kept (fun s => (e.step s).errors) (e.withHost d).surroundings.errors
      { inner := e.host : Diary σ } { inner := d : Diary τ } :=
    ⟨rfl, nofun, fun s => (List.append_nil _).symm⟩
  have hlike := (like_withHost hclock hd (Nat.le_refl (left d))).under hkept
  obtain ⟨j, last', -, hr, hl⟩ := follows_plays (quiet_diarized hq) (falters_diarized hf hq')
    (fun hb => hb.1.1 _) hn hdrive hlike moves clean
  exact ⟨last', hr, hl.transparent⟩

end Engine

/-! ## Failures that are planned -/

/-- Fails instead if `next` knows of a failure: it gives the message and the host that is left. -/
def Act.unlessFails {α : Type} (next : σ → Option (String × σ)) (m : Act σ α) : Act σ α := do
  match next (← get).host with
  | some (text, d) =>
    Engine.updateHost fun _ => d
    throw (.raised .business text)
  | none => m

/-- The hooks, which do what they do once `next` knows of no more failures for the step. -/
def Hooks.faltering (h : Hooks σ γ) (next : StepId → σ → Option (String × σ)) : Hooks σ γ :=
  { h with
    execute := fun s context => Act.unlessFails (next s) (h.execute s context)
    present := fun s context => Act.unlessFails (next s) (h.present s context) }

namespace Engine

open Act

section Planned

variable {ρ : σ → σ → Prop} {left : σ → Nat} {h : Hooks σ γ}

theorem follows_unlessFails {α : Type} {V : α → α → Prop} {k : Nat} {s : StepId} {e e' : Engine σ}
    {m : Act σ α} {next : σ → Option (String × σ)} (hl : Like (.kin ρ left k) e e')
    (hm : Agree (Like (.kin ρ left k)) V m m e e')
    (hnext : ∀ text d, next e'.host = some (text, d) → ρ e.host d ∧ left d < left e'.host) :
    Follows (Like (.kin ρ left k)) V (Recoverable (.kin ρ left) k s e) m (m.unlessFails next) e e' := by
  obtain ⟨hclock, hclock', -, hk⟩ := hl.beyond
  unfold unlessFails
  cases hn : next e'.host with
  | none =>
    refine hm.follows.congr rfl ?_
    rw [run_bind, run_get]
    dsimp only
    rw [hn]
  | some f =>
    obtain ⟨text, d⟩ := f
    obtain ⟨hd, hleft⟩ := hnext text d hn
    intro a e₁ _
    rw [ends_bind, ends_get, hn]
    refine ⟨text, left d, rfl, Nat.lt_of_lt_of_le hleft hk, ?_⟩
    have hd' : Like (.kin ρ left (left d)) e (e'.withHost d) :=
      hl.withHost rfl rfl ⟨hclock, hclock', hd, Nat.le_refl _⟩
    exact hd'.noted ⟨hclock, hclock', hd, Nat.le_refl _⟩

/-- Hooks that do not look at times and errors falter if failures are planned, each of which leaves fewer. -/
theorem falters_faltering {next : StepId → σ → Option (String × σ)}
    (hm : ∀ k, h.Matches (.kin ρ left k) h)
    (hnext : ∀ c s d text d₁, ρ c d → next s d = some (text, d₁) → ρ c d₁ ∧ left d₁ < left d) :
    h.Falters (.kin ρ left) (h.faltering next) where
  starting k s e e' hl _ := ((hm k).starting s e e' hl).follows
  execute k s c e e' hl _ := follows_unlessFails hl ((hm k).execute s c e e' hl) fun text d =>
    hnext e.host s e'.host text d hl.beyond.2.2.1
  present k s c e e' hl _ := follows_unlessFails hl ((hm k).present s c e e' hl) fun text d =>
    hnext e.host s e'.host text d hl.beyond.2.2.1
  observe k := (hm k).observe
  room := Nat.le_refl _

theorem quiet_faltering (hq : h.Quiet) (next : StepId → σ → Option (String × σ)) :
    (h.faltering next).Quiet := by
  have hfails : ∀ {α : Type} {m : Act σ α} (next : σ → Option (String × σ)),
      m.Always (fun e e' => e'.core = e.core) →
        (m.unlessFails next).Always fun e e' => e'.core = e.core := by
    intro α m next hm e
    unfold unlessFails
    rw [run_bind, run_get]
    dsimp only
    split
    · rfl
    · exact hm e
  exact ⟨hq.starting, fun s c => hfails _ (hq.execute s c), fun s c => hfails _ (hq.present s c), hq.observe⟩

end Planned

/-! ## An errand -/

def takeFailure (s : StepId) (plan : List (StepId × String)) :
    Option (String × List (StepId × String)) :=
  (plan.find? (·.1 = s)).map fun f => (f.2, plan.erase f)

theorem length_takeFailure {s : StepId} {plan rest : List (StepId × String)} {text : String}
    (h : takeFailure s plan = some (text, rest)) : rest.length < plan.length := by
  unfold takeFailure at h
  obtain ⟨f, hf, hr⟩ := Option.map_eq_some_iff.mp h
  cases hr
  have hmem : f ∈ plan := List.mem_of_find?_eq_some hf
  rw [List.length_erase_of_mem hmem]
  have hpos : 0 < plan.length := List.length_pos_of_mem hmem
  omega

/-- A paper is written and then approved, which a listener wants to know. -/
def errand : Engine (List (StepId × String)) where
  steps := #[(Step.task "Task" "write" none).withSuccessor .complete (some ⟨1⟩),
    Step.ofDecision "Decision" "approve" (some ⟨"anna"⟩) 1 [.approve, .deny] true]
  workflows := #[{ key := "paper", owner := none, id := 1, first := ⟨0⟩, current := ⟨0⟩,
                   context := ⟨0⟩, listeners := [.observer ⟨0⟩] }]
  contexts := #[[]]
  clock := .counter 1 1
  host := []

def mishaps : List (StepId × String) :=
  [(⟨0⟩, "no paper"), (⟨1⟩, "no mail"), (⟨0⟩, "still no paper")]

def errandMoves : List (Move Unit) := [.advance (), .resolve .approve, .advance ()]

theorem leads_errand {t : StepId} (h : errand.Leads (errand.workflow ⟨0⟩).current t) :
    t ∈ [(⟨0⟩ : StepId), ⟨1⟩] :=
  Leads.mem (by decide +kernel) List.mem_cons_self h

theorem errand_transparent :
    ∃ last last', (errandMoves.forM (play 0 Hooks.idle.diarized ⟨0⟩)).run errand.withDiary = (.ok (), last) ∧
      (errandMoves.forM (play 3 (Hooks.idle.faltering takeFailure).diarized ⟨0⟩)).run
        (errand.withHost mishaps).withDiary = (.ok (), last') ∧
      Transparent ⟨0⟩ errand last last' := by
  have hquiet : (Hooks.idle : Hooks (List (StepId × String)) Unit).Quiet :=
    ⟨fun _ _ => rfl, fun _ _ _ => rfl, fun _ _ _ => rfl, fun _ _ _ => rfl⟩
  have hf : (Hooks.idle : Hooks (List (StepId × String)) Unit).Falters
      (.kin (fun _ _ => True) List.length) (Hooks.idle.faltering takeFailure) :=
    falters_faltering (fun _ => Hooks.matches_idle) fun _ _ _ _ _ _ h => ⟨trivial, length_takeFailure h⟩
  have hclean : ((errandMoves.forM (play 0 Hooks.idle.diarized ⟨0⟩)).run errand.withDiary).1.toOption =
      some () := by decide +kernel
  have hsteps : ∀ s ∈ [(⟨0⟩ : StepId), ⟨1⟩], errand.HasStep s ∧ (errand.step s).Proper := by
    decide +kernel
  have hclock : errand.clock.Timely := by
    intro n
    show (1 : Int) + n * 1 ≠ 0
    omega
  rcases hr : (errandMoves.forM (play 0 Hooks.idle.diarized ⟨0⟩)).run errand.withDiary with ⟨x | ⟨⟩, last⟩
  · rw [hr] at hclean
    cases hclean
  · obtain ⟨last', hr', ht⟩ := failures_transparent (n := 3) (d := mishaps) hquiet
      (quiet_faltering hquiet takeFailure) hf (by decide) (fun s hs => hsteps s (leads_errand hs)) hclock
      trivial (by decide) hr
    exact ⟨last, last', rfl, hr', ht⟩

end Engine

end ApprovalFlow
