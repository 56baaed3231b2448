import ApprovalFlow.Proofs.ManagerInvariants
import ApprovalFlow.Proofs.FootprintOperations
import ApprovalFlow.Proofs.AnsweredAside

/-!
# Workflows that share no steps

Workflows of a manager that share no steps, and none of whose steps is bound elsewhere, go on to be so
whatever is done with them by way of the manager, its queue or themselves (`residing_along`). Each of them
resides in a precinct of its own (`Residing.resides`).
-/

namespace ApprovalFlow

open Act

variable {σ γ : Type}

namespace Engine

/-- The clock may have been read, but it has not been set. -/
def Ticks (e e' : Engine σ) : Prop := e'.clock.reading = e.clock.reading

def StaysLodged (e e' : Engine σ) : Prop := ∀ s, (e'.step s).context = (e.step s).context

instance : IsPreorder (Engine σ) Ticks where
  refl _ := rfl
  trans _ _ _ h h' := Eq.trans h' h

instance : IsPreorder (Engine σ) StaysLodged where
  refl _ _ := rfl
  trans _ _ _ h h' s := (h' s).trans (h s)

theorem governs_ticks : Governs (Ticks (σ := σ)) where
  off _ _ _ _ hr := hr
  work _ _ _ _ := rfl
  workflow _ _ _ _ := rfl
  bind _ _ _ _ := rfl
  reassign _ _ _ _ := rfl

theorem bears_staysLodged : Bears (StaysLodged (σ := σ)) where
  off hs _ _ _ _ s := by rw [step_of_steps hs]
  work _ _ _ hf := step_mapStep_eq (Step.context_of_frame hf.frame)

end Engine

structure Hooks.Timeless (h : Hooks σ γ) : Prop where
  starting : ∀ s, (h.starting s).Always Engine.Ticks
  execute : ∀ s c, (h.execute s c).Always Engine.Ticks
  present : ∀ s c, (h.present s c).Always Engine.Ticks
  observe : ∀ l event, (h.observe l event).Always Engine.Ticks

namespace Engine

variable {h : Hooks σ γ} {m : ManagerId} {members : WorkflowId → Prop} {own : WorkflowId → StepId → Prop}
  {w : WorkflowId} {s : StepId} {silent : Prop} {op : Operation σ γ} {ops : List (Operation σ γ)}
  {e e₁ e' : Engine σ}

def Lodging (members : WorkflowId → Prop) (own : WorkflowId → StepId → Prop) (e : Engine σ) : Prop :=
  ∀ w, members w → ∀ s, own w s → Lodged w e s

/-- The register is in order, no workflow has steps that are bound elsewhere, and the clock never reads the
instant that stands for "not set". -/
structure Residing (m : ManagerId) (members : WorkflowId → Prop) (own : WorkflowId → StepId → Prop)
    (e : Engine σ) : Prop extends Orderly m members own e where
  timely : e.clock.Timely
  lodging : Lodging members own e

/-- Each of the workflows resides in a precinct of its own. -/
theorem Residing.resides (hr : Residing m members own e) (hw : members w) : Resides m (own w) w e where
  toMember := hr.member w hw
  hasDesk := hr.hasDesk
  timely := hr.timely
  audience n hn := by
    rcases hr.listens w hw with ⟨obs, hobs⟩ | ⟨obs, hobs⟩
    · rw [hobs] at hn
      simp at hn
    · rw [hobs] at hn
      simpa using hn
  keys := hr.keys
  registered id hid := (hr.registered id w hid).2.2
  lodged := hr.lodging w hw
  decisions s hs := (hr.queued s hs).1
  queued s hs hown := by
    obtain ⟨-, v, hv, hrun, hown', hb⟩ := hr.queued s hs
    have hvw : v = w := by
      by_contra hne
      exact hr.disjoint v w hv hw hne s hown' hown
    exact hvw ▸ ⟨hrun, hb⟩
  foreign hrun s hs hown := by
    obtain ⟨-, v, hv, -, hown', -⟩ := hr.queued s hs
    exact hr.not_belongs hv hs hown' (fun hwv => hown (hwv ▸ hown')) hrun
  live hl hlive := by
    rcases hr.listens w hw with ⟨obs, hobs⟩ | hman
    · rw [hobs] at hl
      simp at hl
    · exact hr.live w hw hman hlive

/-! ## What an operation comes to -/

theorem Lodging.of_same (hl : Lodging members own e) (hw : e'.workflows = e.workflows)
    (hs : ∀ s, (e'.step s).context = (e.step s).context) : Lodging members own e' := by
  intro v hv s hown
  unfold Lodged
  rw [hs, workflow_of_workflows hw]
  exact hl v hv s hown

section Registry

variable (hr : Registry m members own e) (hl : Lodging members own e)
include hr hl

/-- A workflow that conducts itself binds but its own steps, and in its own context. -/
theorem Registry.lodging_conduct (hw : members w) (hc : Conduct silent m (own w) w e e') :
    Lodging members own e' := by
  intro v hv s hown
  by_cases hvw : v = w
  · subst hvw
    exact hc.confined.lodgings s (hl v hv s hown)
  · unfold Lodged
    rw [hr.step_of_ne hw hc hv hvw hown, hc.confined.others v hvw]
    exact hl v hv s hown

theorem Registry.lodging_accepted {n : Int} (hw : members w) (hfirst : own w (e.workflow w).first)
    (ha : Accepted m w n e e') : Lodging members own e' := by
  intro v hv s hown
  by_cases hvw : v = w
  · subst hvw
    exact ha.lodged s (hl v hv s hown)
  · have hne : s ≠ (e.workflow w).first := fun h => hr.disjoint v w hv hw hvw s hown (h ▸ hfirst)
    unfold Lodged
    rw [ha.steps s hne, ha.others v hvw]
    exact hl v hv s hown

end Registry

theorem Lodging.of_answered (hl : Lodging members own e) (ha : Answered m s e e') :
    Lodging members own e' := by
  refine hl.of_same ha.workflows fun t => ?_
  by_cases ht : t = s
  · rw [ht]
    exact Step.context_of_frame ha.self.frame
  · rw [ha.others t ht]

/-- Whatever is done with the workflows of a manager, none of their steps is bound elsewhere. -/
theorem Dealing.lodging (hd : Dealing silent m members own op e e') (ho : Orderly m members own e)
    (hfree : FreeId m e op) (hl : Lodging members own e) : Lodging members own e' := by
  cases hd with
  | reassigns _ hr =>
    refine hl.of_same hr.workflows fun t => ?_
    obtain ⟨actor, ht⟩ := hr.steps t
    rw [ht]
  | conducts w hw _ _ hc => exact ho.lodging_conduct hl hw hc
  | answers s hs _ _ ha => exact hl.of_answered ha
  | decides s w e₁ hs _ hb _ ha hc =>
    exact (ho.of_answered ha hs).lodging_conduct (hl.of_answered ha) (ho.registered _ w hb).1 hc
  | starts w n context e₁ hw hop hst ha hc =>
    obtain ⟨hobs, hcur, -⟩ := ho.newcomers w hw hst
    have hfirst : own w (e.workflow w).first := hcur ▸ (ho.member w hw).current
    exact (ho.of_accepted ha hw hobs hcur (ha.free hfree hop hst)).lodging_conduct
      (ho.lodging_accepted hl hw hfirst ha) hw hc

/-- A decision that is answered directly stays where it is bound. -/
theorem next_staysLodged (ha : op.Answers s) : StaysLodged e (next h e op) ∧ Ticks e (next h e op) := by
  cases op with
  | resolve t o => exact ⟨bears_staysLodged.resolve o e, governs_ticks.resolve o e⟩
  | other action =>
    obtain ⟨o, rfl⟩ := ha
    exact ⟨bears_staysLodged.setOutcome o e, governs_ticks.setOutcome o e⟩
  | _ => exact ha.elim

/-! ## Along a run -/

section Run

variable (hq : h.Quiet) (ht : h.Timeless)

include ht in
theorem next_ticks (hop : Manages m members e op) : Ticks e (next h e op) :=
  governs_ticks.next ht.observe (fun _ =>
    ⟨ht.starting, ht.execute, ht.present, fun kind _ => governs_ticks.emit ht.observe kind⟩) hop

include hq ht

theorem Residing.next (hr : Residing m members own e) (hop : Attends m members e op ∧ FreeId m e op) :
    Residing m members own (next h e op) := by
  obtain ⟨hman | ⟨s, ha⟩, hfree⟩ := hop
  · have hd := hr.dealing hq hman
    have hticks : Ticks e (Engine.next h e op) := next_ticks ht hman
    refine ⟨hd.orderly hr.toOrderly hfree, fun n => ?_, hd.lodging hr.toOrderly hfree hr.lodging⟩
    rw [hticks]
    exact hr.timely n
  · have hb := hr.next_bypassed (h := h) ha
    obtain ⟨hs, hticks⟩ := next_staysLodged (h := h) (e := e) ha
    refine ⟨hb.orderly, fun n => ?_, fun v hv s hown => ?_⟩
    · rw [hticks]
      exact hr.timely n
    · unfold Lodged
      rw [hs, hb.workflow]
      exact hr.lodging v hv s hown

/-- Workflows that reside in their precincts do so after every run. -/
theorem residing_along (hr : Residing m members own e)
    (hops : Along h (fun e op => Attends m members e op ∧ FreeId m e op) e ops) :
    Residing m members own (runs h e ops) :=
  runs_invariant (fun _ _ hr hop => hr.next hq ht hop) hr hops

end Run

/-- Workflows with graphs of fresh steps reside in their precincts if none of these steps is bound
elsewhere. -/
theorem Opening.residing (hop : Opening m members e) (ht : e.clock.Timely) (hl : Lodging members e.graph e) :
    Residing m members e.graph e := ⟨hop.orderly, ht, hl⟩

end Engine

end ApprovalFlow
