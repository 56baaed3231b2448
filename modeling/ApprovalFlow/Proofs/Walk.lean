import ApprovalFlow.Proofs.Operation
import ApprovalFlow.Proofs.Turns
import Mathlib.Data.List.Chain
import Mathlib.Logic.Relation

/-!
# Traversal follows the graph

The walk of a workflow is its history with the current step at the end. However a workflow is driven,
aborted and decided, its walk begins with the first step and goes from each step to the one registered for
its outcome, and no other step of its graph is touched (`walks_along_graph`). Each step is left behind
once; the only way out is a successor that is completed already, which `advance` reports.
-/

namespace ApprovalFlow

/-- The steps a workflow has been on, the current one last. -/
def Workflow.walk (wf : Workflow) : List StepId :=
  if wf.history.getLast? = some wf.current then wf.history else wf.history ++ [wf.current]

def Workflow.EqButListeners (a b : Workflow) : Prop := ∃ listeners, b = { a with listeners }

structure Step.Fresh (st : Step) : Prop where
  created : st.state = .created
  unstarted : st.isStarted = false

namespace Workflow

variable {wf : Workflow}

instance : IsPreorder Workflow EqButListeners where
  refl wf := ⟨wf.listeners, rfl⟩
  trans _ _ _ := by
    rintro ⟨ls, rfl⟩ ⟨ls', rfl⟩
    exact ⟨ls', rfl⟩

theorem eqButListeners_of_eq {a b : Workflow} (h : b = a) : EqButListeners a b := ⟨a.listeners, h⟩

theorem walk_of_live (h : wf.history.getLast? ≠ some wf.current) :
    wf.walk = wf.history ++ [wf.current] := by
  unfold walk
  rw [if_neg h]

theorem getLast?_walk (wf : Workflow) : wf.walk.getLast? = some wf.current := by
  unfold walk
  split
  · assumption
  · rw [List.getLast?_concat]

theorem current_mem_walk (wf : Workflow) : wf.current ∈ wf.walk :=
  List.mem_of_getLast? (getLast?_walk wf)

theorem mem_walk_of_mem_history {s : StepId} (h : s ∈ wf.history) : s ∈ wf.walk := by
  unfold walk
  split
  · exact h
  · exact List.mem_append_left _ h

theorem walk_left (wf : Workflow) : (wf.left wf.current).walk = wf.history ++ [wf.current] := by
  unfold walk left
  rw [if_pos List.getLast?_concat]

theorem walk_moved {t : StepId} (h : t ≠ wf.current) :
    ((wf.left wf.current).moved wf.current t).walk = wf.history ++ [wf.current] ++ [t] := by
  apply walk_of_live
  show (wf.history ++ [wf.current]).getLast? ≠ some t
  rw [List.getLast?_concat]
  exact fun ht => h (Option.some.inj ht).symm

end Workflow

namespace Engine

open Act

variable {σ γ : Type} {seen : σ → List StepId} {w : WorkflowId} {own : StepId → Prop}
  {e e' : Engine σ}

def Leads (e : Engine σ) : StepId → StepId → Prop := Relation.ReflTransGen fun s t => t ∈ e.targets s

/-- Nothing leads out of steps that are closed under successors. -/
theorem Leads.mem {ss : List StepId} (hclosed : ∀ s ∈ ss, ∀ t ∈ e.targets s, t ∈ ss) {s t : StepId}
    (hs : s ∈ ss) (h : e.Leads s t) : t ∈ ss := by
  induction h with
  | refl => exact hs
  | tail _ ht ih => exact hclosed _ ih _ ht

def Followed (e : Engine σ) (s t : StepId) : Prop :=
  (e.step s).isCompleted = true ∧ (e.step s).next? (e.step s).outcome = some t

/-- The workflow `w` has walked along the graph of its steps, which `own` lists. `seen` is what the hooks
log of the steps that are executed. -/
structure Walks (seen : σ → List StepId) (own : StepId → Prop) (w : WorkflowId) (e : Engine σ) :
    Prop where
  begins : (e.workflow w).walk.head? = some (e.workflow w).first
  chain : (e.workflow w).walk.IsChain (Followed e)
  distinct : (e.workflow w).walk.Nodup
  done : ∀ s ∈ (e.workflow w).history, (e.step s).isCompleted = true
  outside : ∀ t, own t → t ∉ (e.workflow w).walk → (e.step t).Fresh ∧ t ∉ seen e.host
  previous : (e.workflow w).previous = (e.workflow w).walk.dropLast.getLast?
  terminal : (e.workflow w).state.isTerminal = true ↔
    (e.workflow w).history.getLast? = some (e.workflow w).current
  settled : (e.workflow w).state = .completed →
    (e.step (e.workflow w).current).outcome.same .abort = false ∧
      (e.step (e.workflow w).current).next? (e.step (e.workflow w).current).outcome = none
  asks : (e.workflow w).state = .waiting → (e.step (e.workflow w).current).isDecision = true

/-- A walk, with what is needed to go on: the graph is closed under successors, and all of it is there. -/
structure Walking (seen : σ → List StepId) (own : StepId → Prop) (w : WorkflowId) (e : Engine σ) :
    Prop extends Walks seen own w e where
  hasWorkflow : e.HasWorkflow w
  hasStep : ∀ t, own t → e.HasStep t
  closed : ∀ s, own s → ∀ t ∈ e.targets s, own t
  inside : ∀ t ∈ (e.workflow w).walk, own t

/-- The workflow has not changed but for its listeners, and of its steps only the current one may have been
worked on. -/
structure Near (seen : σ → List StepId) (own : StepId → Prop) (w : WorkflowId) (e e' : Engine σ) :
    Prop where
  workflow : (e.workflow w).EqButListeners (e'.workflow w)
  hasWorkflow : e.HasWorkflow w → e'.HasWorkflow w
  hasStep : ∀ t, own t → e.HasStep t → e'.HasStep t
  successors : ∀ t, own t → (e'.step t).successors = (e.step t).successors
  decisions : ∀ t, own t → (e'.step t).isDecision = (e.step t).isDecision
  final : ∀ t, own t → (e.step t).isCompleted = true →
    (e'.step t).isCompleted = true ∧ (e'.step t).outcome = (e.step t).outcome
  fresh : ∀ t, own t → t ≠ (e.workflow w).current → (e.step t).Fresh → (e'.step t).Fresh
  adds : ∀ t, own t → t ∈ seen e'.host → t ∈ seen e.host ∨ t = (e.workflow w).current

/-! ## Where the workflow stays -/

theorem near_of_worked (hw : Worked seen (e.workflow w).current e e') : Near seen own w e e' where
  workflow := Workflow.eqButListeners_of_eq (hw.workflow w)
  hasWorkflow := (hw.hasWorkflow w).mpr
  hasStep t _ := (hw.hasStep t).mpr
  successors t _ := Step.successors_of_frame (hw.frame t)
  decisions t _ := Step.isDecision_of_frame (hw.frame t)
  final t _ hc := by
    by_cases ht : t = (e.workflow w).current
    · subst ht; exact hw.self.final hc
    · rw [hw.others t ht]; exact ⟨hc, rfl⟩
  fresh t _ ht hf := by rw [hw.others t ht]; exact hf
  adds t _ h := hw.adds t h

theorem near_of_same (hs : e'.steps = e.steps) (hw : e'.workflows = e.workflows)
    (ha : Adds seen (fun _ => False) e e') : Near seen own w e e' := by
  have hstep := step_of_steps hs
  refine
    { workflow := Workflow.eqButListeners_of_eq (workflow_of_workflows hw w)
      hasWorkflow := (hasWorkflow_of_workflows hw w).mpr
      hasStep := fun t _ => (hasStep_of_steps hs t).mpr
      successors := fun t _ => by rw [hstep]
      decisions := fun t _ => by rw [hstep]
      final := fun t _ hc => by rw [hstep]; exact ⟨hc, rfl⟩
      fresh := fun t _ _ hf => by rw [hstep]; exact hf
      adds := fun t _ h => .inl ((ha t h).resolve_right id) }

theorem near_of_core (hc : e'.core = e.core) (ha : Adds seen (fun _ => False) e e') :
    Near seen own w e e' :=
  near_of_same (congrArg Core.steps hc) (congrArg Core.workflows hc) ha

theorem near_of_told (h : Told seen e e') : Near seen own w e e' :=
  near_of_same h.steps h.workflows h.adds

/-- A change of a step that concerns neither its progress nor its successors. -/
theorem near_mapStep (s : StepId) {f : Step → Step}
    (hs : ∀ st, (f st).successors = st.successors) (hd : ∀ st, (f st).decision = st.decision)
    (hst : ∀ st, (f st).state = st.state) (ho : ∀ st, (f st).outcome = st.outcome)
    (ht : ∀ st, (f st).startTime = st.startTime) : Near seen own w e (e.mapStep s f) where
  workflow := refl (e.workflow w)
  hasWorkflow := id
  hasStep t _ := (hasStep_mapStep e s t f).mpr
  successors t _ := step_mapStep_eq (hs _) t
  decisions t _ := step_mapStep_eq (g := Step.isDecision) (congrArg Option.isSome (hd _)) t
  final t _ hc := by
    rw [step_mapStep]
    split
    · exact ⟨by unfold Step.isCompleted at hc ⊢; rw [hst]; exact hc, ho _⟩
    · exact ⟨hc, rfl⟩
  fresh t _ _ hf := by
    rw [step_mapStep]
    split
    · exact ⟨(hst _).trans hf.created, by unfold Step.isStarted; rw [ht]; exact hf.unstarted⟩
    · exact hf
  adds t _ h := .inl h

theorem Near.targets (hn : Near seen own w e e') {s : StepId} (hs : own s) :
    e'.targets s = e.targets s :=
  targets_of_successors (hn.successors s hs)

theorem Near.next? (hn : Near seen own w e e') {s : StepId} (hs : own s) (o : Outcome) :
    (e'.step s).next? o = (e.step s).next? o := by
  unfold Step.next?
  rw [hn.successors s hs]

/-- A walk is kept where the workflow stays and only its current step is worked on. -/
theorem Walking.of_near (hk : Walking seen own w e) (hn : Near seen own w e e') :
    Walking seen own w e' := by
  -- The record is the same, so each clause only has to be carried over to the steps as they are now.
  have hcur : own (e.workflow w).current := hk.inside _ (Workflow.current_mem_walk _)
  obtain ⟨listeners, hw⟩ := hn.workflow
  refine ⟨⟨?begins, ?chain, ?distinct, ?done, ?outside, ?previous, ?terminal, ?settled, ?asks⟩,
    hn.hasWorkflow hk.hasWorkflow, fun t ht => hn.hasStep t ht (hk.hasStep t ht), ?closed, ?inside⟩
  all_goals try rw [hw]
  case begins => exact hk.begins
  case distinct => exact hk.distinct
  case previous => exact hk.previous
  case terminal => exact hk.terminal
  case inside => exact hk.inside
  case closed => exact fun s hs t ht => hk.closed s hs t (hn.targets hs ▸ ht)
  case asks => exact fun h => (hn.decisions _ hcur).trans (hk.asks h)
  case chain =>
    -- A link hangs on a completed step, whose outcome and successors stay.
    refine hk.chain.imp_of_mem_imp fun s t hs _ hst => ?_
    obtain ⟨hc, ho⟩ := hn.final s (hk.inside s hs) hst.1
    refine ⟨hc, ?_⟩
    rw [hn.next? (hk.inside s hs), ho]
    exact hst.2
  case done =>
    intro s hs
    exact (hn.final s (hk.inside s (Workflow.mem_walk_of_mem_history hs)) (hk.done s hs)).1
  case outside =>
    intro t ht htw
    have hne : t ≠ (e.workflow w).current := fun h => htw (h ▸ Workflow.current_mem_walk _)
    obtain ⟨hf, hs⟩ := hk.outside t ht htw
    refine ⟨hn.fresh t ht hne hf, fun h => ?_⟩
    rcases hn.adds t ht h with h | h
    · exact hs h
    · exact hne h
  case settled =>
    intro h
    -- The current step of a workflow that is over is its last step, and completed.
    have hlast := hk.terminal.mp (by rw [h]; rfl)
    obtain ⟨-, ho⟩ := hn.final _ hcur (hk.done _ (List.mem_of_getLast? hlast))
    rw [hn.next? hcur, ho]
    exact hk.settled h

/-! ## Where the workflow changes -/

section Changes

variable (hk : Walking seen own w e) (hlive : (e.workflow w).state.isTerminal = false)
include hk hlive

theorem Walking.live_history : (e.workflow w).history.getLast? ≠ some (e.workflow w).current := by
  intro h
  rw [hk.terminal.mpr h] at hlive
  contradiction

theorem Walking.walk_eq : (e.workflow w).walk = (e.workflow w).history ++ [(e.workflow w).current] :=
  Workflow.walk_of_live (hk.live_history hlive)

omit hlive in
/-- In a graph whose edges lead upwards, what follows the current step is still ahead. -/
theorem Walking.ahead {rank : StepId → Nat} (hrank : ∀ s, own s → ∀ t ∈ e.targets s, rank s < rank t)
    {t : StepId} (ht : t ∈ e.targets (e.workflow w).current) :
    (e.step t).Fresh ∧ t ∉ (e.workflow w).walk := by
  have hcur : own (e.workflow w).current := hk.inside _ (Workflow.current_mem_walk _)
  have hout : t ∉ (e.workflow w).walk := by
    intro hmem
    -- The ranks grow along the walk, so the current step has the greatest.
    have hchain : (e.workflow w).walk.IsChain fun a b => rank a < rank b :=
      hk.chain.imp_of_mem_imp fun a b ha _ hab =>
        hrank a (hk.inside a ha) b (mem_targets_of_next? hab.2)
    have : IsTrans StepId fun a b => rank a < rank b := ⟨fun _ _ _ => Nat.lt_trans⟩
    have hsorted := List.isChain_iff_pairwise.mp hchain
    have hlast := List.dropLast_append_getLast? _ (Workflow.getLast?_walk (e.workflow w))
    rw [← hlast] at hmem hsorted
    have hle : rank t ≤ rank (e.workflow w).current := by
      rcases List.mem_append.mp hmem with h | h
      · exact (List.pairwise_append.mp hsorted).2.2 t h _ (List.mem_singleton_self _) |>.le
      · rw [List.mem_singleton.mp h]
    exact absurd (hrank _ hcur t ht) (Nat.not_lt.mpr hle)
  exact ⟨(hk.outside t (hk.closed _ hcur t ht) hout).1, hout⟩

/-- All steps of the walk are completed if the current one is. -/
theorem Walking.not_mem_walk (hc : (e.step (e.workflow w).current).isCompleted = true) {t : StepId}
    (hct : (e.step t).isCompleted = false) : t ∉ (e.workflow w).walk := by
  intro h
  rw [hk.walk_eq hlive] at h
  rcases List.mem_append.mp h with h | h
  · rw [hk.done t h] at hct; contradiction
  · rw [List.mem_singleton.mp h, hc] at hct; contradiction

/-- What follows the completed current step is fresh if it is not completed. -/
theorem Walking.fresh_next (hc : (e.step (e.workflow w).current).isCompleted = true) {t : StepId}
    (ht : (e.step (e.workflow w).current).next? (e.step (e.workflow w).current).outcome = some t)
    (hct : (e.step t).isCompleted = false) : (e.step t).Fresh := by
  have hcur : own (e.workflow w).current := hk.inside _ (Workflow.current_mem_walk _)
  exact (hk.outside t (hk.closed _ hcur t (mem_targets_of_next? ht)) (hk.not_mem_walk hlive hc hct)).1

/-- A workflow that is not over may change to another such state. -/
theorem Walking.change {f : Workflow → Workflow}
    (hstate : (f (e.workflow w)).state.isTerminal = false)
    (hasks : (f (e.workflow w)).state = .waiting → (e.step (e.workflow w).current).isDecision = true)
    (hrest : (f (e.workflow w)).history = (e.workflow w).history ∧
      (f (e.workflow w)).current = (e.workflow w).current ∧
      (f (e.workflow w)).previous = (e.workflow w).previous ∧
      (f (e.workflow w)).first = (e.workflow w).first) :
    Walking seen own w (e.mapWorkflow w f) := by
  obtain ⟨hh, hc, hp, hf⟩ := hrest
  have hwalk : (f (e.workflow w)).walk = (e.workflow w).walk := by
    unfold Workflow.walk
    rw [hh, hc]
  refine ⟨⟨?begins, ?chain, ?distinct, ?done, ?outside, ?previous, ?terminal, ?settled, ?asks⟩,
    (hasWorkflow_mapWorkflow ..).mpr hk.hasWorkflow, hk.hasStep, hk.closed, ?inside⟩
  all_goals rw [workflow_mapWorkflow_self f hk.hasWorkflow]
  case begins => rw [hwalk, hf]; exact hk.begins
  case chain => rw [hwalk]; exact hk.chain
  case distinct => rw [hwalk]; exact hk.distinct
  case done => rw [hh]; exact hk.done
  case outside => rw [hwalk]; exact hk.outside
  case previous => rw [hp, hwalk]; exact hk.previous
  case inside => rw [hwalk]; exact hk.inside
  case terminal =>
    -- Neither side holds: the workflow is not over, and its current step is not left behind.
    rw [hh, hc, hstate]
    exact ⟨nofun, fun h => absurd h (hk.live_history hlive)⟩
  case settled =>
    intro h
    rw [h] at hstate
    contradiction
  case asks => rw [hc]; exact hasks

/-- A workflow whose current step is completed may end: that step is left behind as the last one. -/
theorem Walking.close (hc : (e.step (e.workflow w).current).isCompleted = true)
    {f : Workflow → Workflow} (state : WorkflowState) (t : Instant)
    (hf : f (e.workflow w) = ((e.workflow w).left (e.workflow w).current).ended state t)
    (hstate : state.isTerminal = true)
    (hs : state = .completed → (e.step (e.workflow w).current).outcome.same .abort = false ∧
      (e.step (e.workflow w).current).next? (e.step (e.workflow w).current).outcome = none) :
    Walking seen own w (e.mapWorkflow w f) := by
  have hwalk : (((e.workflow w).left (e.workflow w).current).ended state t).walk =
      (e.workflow w).walk := by
    rw [hk.walk_eq hlive]
    exact Workflow.walk_left _
  refine ⟨⟨?begins, ?chain, ?distinct, ?done, ?outside, ?previous, ?terminal, ?settled, ?asks⟩,
    (hasWorkflow_mapWorkflow ..).mpr hk.hasWorkflow, hk.hasStep, hk.closed, ?inside⟩
  all_goals rw [workflow_mapWorkflow_self f hk.hasWorkflow, hf]
  case begins => rw [hwalk]; exact hk.begins
  case chain => rw [hwalk]; exact hk.chain
  case distinct => rw [hwalk]; exact hk.distinct
  case outside => rw [hwalk]; exact hk.outside
  case previous => rw [hwalk]; exact hk.previous
  case inside => rw [hwalk]; exact hk.inside
  -- Now the current step is the last of the history.
  case terminal => exact ⟨fun _ => List.getLast?_concat, fun _ => hstate⟩
  case settled => exact hs
  case asks =>
    intro h
    have hw : state = .waiting := h
    rw [hw] at hstate
    contradiction
  case done =>
    intro s hs
    rcases List.mem_append.mp hs with hs | hs
    · exact hk.done s hs
    · rw [List.mem_singleton.mp hs]; exact hc

/-- A running workflow goes on from its completed step to an incomplete successor. -/
theorem Walking.goOn (hr : (e.workflow w).state = .running)
    (hc : (e.step (e.workflow w).current).isCompleted = true) {t : StepId}
    (ht : (e.step (e.workflow w).current).next? (e.step (e.workflow w).current).outcome = some t)
    (hct : (e.step t).isCompleted = false) :
    Walking seen own w (e.mapWorkflow w fun wf =>
      (wf.left (e.workflow w).current).moved (e.workflow w).current t) := by
  have hcur : own (e.workflow w).current := hk.inside _ (Workflow.current_mem_walk _)
  have hwalk := hk.walk_eq hlive
  have hnew : t ∉ (e.workflow w).walk := hk.not_mem_walk hlive hc hct
  have hne : t ≠ (e.workflow w).current := fun h => hnew (h ▸ Workflow.current_mem_walk _)
  have hwalk' : (((e.workflow w).left (e.workflow w).current).moved (e.workflow w).current t).walk =
      (e.workflow w).walk ++ [t] := by
    rw [Workflow.walk_moved hne, hwalk]
  refine ⟨⟨?begins, ?chain, ?distinct, ?done, ?outside, ?previous, ?terminal, ?settled, ?asks⟩,
    (hasWorkflow_mapWorkflow ..).mpr hk.hasWorkflow, hk.hasStep, hk.closed, ?inside⟩
  all_goals rw [workflow_mapWorkflow_self _ hk.hasWorkflow]
  case begins =>
    rw [hwalk', List.head?_append, hk.begins]
    rfl
  case chain =>
    rw [hwalk']
    -- The one new link leads from the old current step to the new one.
    refine hk.chain.append (.singleton t) ?_
    intro x hx y hy
    rw [Workflow.getLast?_walk] at hx
    rw [← Option.some.inj hx, ← Option.some.inj hy]
    exact ⟨hc, ht⟩
  case distinct =>
    rw [hwalk', List.nodup_append]
    refine ⟨hk.distinct, List.pairwise_singleton _ t, fun a ha b hb hab => hnew ?_⟩
    rw [← List.mem_singleton.mp hb, ← hab]
    exact ha
  case done =>
    intro s hs
    rcases List.mem_append.mp hs with hs | hs
    · exact hk.done s hs
    · rw [List.mem_singleton.mp hs]; exact hc
  case outside =>
    rw [hwalk']
    exact fun x hx hxw => hk.outside x hx fun h => hxw (List.mem_append_left _ h)
  case previous =>
    rw [hwalk', List.dropLast_concat, Workflow.getLast?_walk]
    rfl
  case inside =>
    rw [hwalk']
    intro x hx
    rcases List.mem_append.mp hx with hx | hx
    · exact hk.inside x hx
    · rw [List.mem_singleton.mp hx]; exact hk.closed _ hcur t (mem_targets_of_next? ht)
  case terminal =>
    have hst : (((e.workflow w).left (e.workflow w).current).moved (e.workflow w).current t).state =
        .running := hr
    rw [hst]
    refine ⟨nofun, fun h => ?_⟩
    -- The last step left behind is the old current step, not the new one.
    have h' : ((e.workflow w).history ++ [(e.workflow w).current]).getLast? = some t := h
    rw [List.getLast?_concat] at h'
    exact absurd (Option.some.inj h').symm hne
  case settled =>
    intro h
    have h' : (e.workflow w).state = .completed := h
    rw [hr] at h'
    contradiction
  case asks =>
    intro h
    have h' : (e.workflow w).state = .waiting := h
    rw [hr] at h'
    contradiction

end Changes

/-! ## Along a run -/

section Runs

variable {h : Hooks σ γ} (hq : h.Quiet) (hl : h.Logs seen)
include hq hl

theorem Walking.ends_emit {e₁ : Engine σ} (hk : Walking seen own w e₁) (ha : e'.Alike e₁)
    (kind : EventKind) :
    (emit h w kind).Ends e' (fun _ => Walking seen own w) (fun _ => Walking seen own w) := by
  have hk' := hk.of_near (near_of_core ha.core (adds_of_host ha.host))
  exact ((emit_told hq hl w kind).ends e').mono (fun _ _ ht => hk'.of_near (near_of_told ht))
    fun _ _ ht => hk'.of_near (near_of_told ht)

/-- Each way in which a turn may end leaves a walk, unless it finds the successor completed. -/
theorem Walking.turnEnds {F : Failure → Engine σ → Prop} (hk : Walking seen own w e)
    (hr : (e.workflow w).state = .running) (hF : ∀ x e', Walking seen own w e' → F x e')
    (hblocked : ∀ t, (e.step (e.workflow w).current).next? (e.step (e.workflow w).current).outcome = some t →
      (e.step t).isCompleted = true →
        F (.successorCompleted (e.step t).key (e.step (e.workflow w).current).key)
          (e.mapWorkflow w (·.left (e.workflow w).current))) :
    TurnEnds h w (e.workflow w).current e
      (after (fun _ => Walking seen own w)
        fun e => Walking seen own w e ∧ (e.workflow w).state = .running) F := by
  have hlive : (e.workflow w).state.isTerminal = false := by rw [hr]; rfl
  have hcur : own (e.workflow w).current := hk.inside _ (Workflow.current_mem_walk _)
  refine ⟨fun x => hF x e hk, fun _ _ => hk, ?waits, ?ends, ?blocked, ?unbound, ?follows⟩
  case waits =>
    intro _ hd e' he _
    have hk' := hk.change hlive (f := ({ · with state := .waiting })) rfl (fun _ => hd)
      ⟨rfl, rfl, rfl, rfl⟩
    exact (hk'.ends_emit hq hl he _).mono (fun _ _ h => h) hF
  case ends =>
    intro hc state kind hs e' he _
    have hk' : Walking seen own w (e.mapWorkflow w fun wf =>
        (wf.left (e.workflow w).current).ended state e.clock.now) := by
      cases hs with
      | abort ho => exact hk.close hlive hc .aborted _ rfl rfl nofun
      | complete ho hn => exact hk.close hlive hc .completed _ rfl rfl fun _ => ⟨ho, hn⟩
    exact (hk'.ends_emit hq hl he kind).mono (fun _ _ h => h) hF
  -- This is the one failure that may leave no walk.
  case blocked => exact fun _ => hblocked
  case unbound =>
    intro hc t ht hct hst
    rw [(hk.fresh_next hlive hc ht hct).unstarted] at hst
    contradiction
  case follows =>
    intro hc _ t ht hct e' he _
    let e₁ := e.mapStep t (·.boundTo (e.workflow w))
    have hn : Near seen own w e e₁ :=
      near_mapStep t (fun _ => rfl) (fun _ => rfl) (fun _ => rfl) (fun _ => rfl) fun _ => rfl
    -- Binding the successor changes nothing that the walk hangs on.
    obtain ⟨hc₁, ho₁⟩ := hn.final _ hcur hc
    have ht₁ : (e₁.step (e.workflow w).current).next? (e₁.step (e.workflow w).current).outcome =
        some t := by
      rw [hn.next? hcur, ho₁]
      exact ht
    have hct₁ : (e₁.step t).isCompleted = false := (step_mapStep_eq (g := Step.isCompleted) rfl t).trans hct
    have hk₁ := (hk.of_near hn).goOn hlive hr hc₁ ht₁ hct₁
    refine ⟨hk₁.of_near (near_of_core he.core (adds_of_host he.host)), ?_⟩
    rw [workflow_of_follows he hk.hasWorkflow]
    exact hr

/-- A turn of a running workflow leaves a walk, unless it finds the successor completed. -/
theorem Walking.ends_turn {F : Failure → Engine σ → Prop} (hk : Walking seen own w e)
    (hr : (e.workflow w).state = .running) (hF : ∀ x e', Walking seen own w e' → F x e')
    (hblocked : ∀ e₁, Worked seen (e.workflow w).current e e₁ → ∀ t,
      (e₁.step (e.workflow w).current).next? (e₁.step (e.workflow w).current).outcome = some t →
        (e₁.step t).isCompleted = true →
          F (.successorCompleted (e₁.step t).key (e₁.step (e.workflow w).current).key)
            (e₁.mapWorkflow w (·.left (e.workflow w).current))) (context : γ) :
    (turn h w context).Ends e
      (after (fun _ => Walking seen own w)
        fun e' => Walking seen own w e' ∧ (e'.workflow w).state = .running) F := by
  refine turn_ends hq hl hr hk.hasWorkflow (fun e₁ hw => ?_) context
  have hblocked₁ := hblocked e₁ hw
  rw [← hw.workflow w] at hblocked₁ ⊢
  exact (hk.of_near (near_of_worked hw)).turnEnds hq hl (by rw [hw.workflow w]; exact hr) hF hblocked₁

theorem Walking.ends_advance (hk : Walking seen own w e) (context : γ) :
    (advance h w context).Ends e (fun _ => Walking seen own w)
      (fun x e' => (∀ a b, x ≠ .successorCompleted a b) → Walking seen own w e') := by
  refine advance_ends (P := fun e => Walking seen own w e ∧ (e.workflow w).state = .running) hq hl
    (fun _ _ _ => hk) (fun _ _ => hk) (fun hr => ⟨hk, hr⟩) ?enter (fun e he => ⟨he.2, he.1.hasWorkflow⟩)
    ?turn
  case enter =>
    intro hs t e' hc ha
    have hlive : (e.workflow w).state.isTerminal = false := by
      rcases hs with hs | ⟨hs, -⟩ <;> rw [hs] <;> rfl
    have hk' := hk.change hlive (f := (·.resumed t)) rfl nofun ⟨rfl, rfl, rfl, rfl⟩
    refine ⟨hk'.of_near (near_of_core hc ha), ?_⟩
    rw [workflow_of_core hc, workflow_mapWorkflow_self _ hk.hasWorkflow]
    rfl
  case turn =>
    rintro e ⟨hk, hr⟩ e₁ hw
    rw [← hw.workflow w]
    exact (hk.of_near (near_of_worked hw)).turnEnds hq hl (by rw [hw.workflow w]; exact hr)
      (fun _ _ hk' _ => hk') fun _ _ _ hx => absurd rfl (hx _ _)

theorem Walking.ends_abort (hk : Walking seen own w e) :
    (abort h w).Ends e (fun _ => Walking seen own w) (fun _ => Walking seen own w) := by
  have hcur : own (e.workflow w).current := hk.inside _ (Workflow.current_mem_walk _)
  refine abort_ends seen (hk.hasStep _ hcur) (fun _ _ => hk) fun hlive e₁ hw _ hc t e' he => ?_
  have hk₁ := hk.of_near (near_of_worked hw)
  rw [← hw.workflow w] at hlive hc
  refine (hk₁.close hlive hc .aborted t ?_ rfl nofun).ends_emit hq hl he _
  show (e₁.workflow w).aborted t = _
  unfold Workflow.aborted
  rw [if_pos (by simpa using hk₁.live_history hlive)]

end Runs

/-- Another action: it leaves the workflow alone but for its listeners, leaves its steps alone, and executes
none of them. -/
structure Elsewhere (seen : σ → List StepId) (own : StepId → Prop) (w : WorkflowId) (e e' : Engine σ) :
    Prop where
  hasWorkflow : e.HasWorkflow w → e'.HasWorkflow w
  workflow : (e.workflow w).EqButListeners (e'.workflow w)
  steps : ∀ t, own t → e'.steps[t.index]? = e.steps[t.index]?
  adds : ∀ t, own t → t ∈ seen e'.host → t ∈ seen e.host

/-- The operations that drive the workflow `w`: advancing and aborting it, resolving its current step,
giving decisions to other actors, and whatever is done elsewhere, where anyone may come to listen to it or
leave. No `advance` may report that it found the successor completed. -/
def Drives (h : Hooks σ γ) (seen : σ → List StepId) (own : StepId → Prop) (w : WorkflowId)
    (e : Engine σ) : Operation σ γ → Prop
  | .advance v context =>
    v = w ∧ ∀ a b, ((advance h v context).run e).1 ≠ .error (.successorCompleted a b)
  | .abort v => v = w
  | .resolve s _ => s = (e.workflow w).current
  | .reassign _ _ => True
  | .other action => Elsewhere seen own w e (action.run e).2
  | _ => False

theorem Elsewhere.step (h : Elsewhere seen own w e e') {t : StepId} (ht : own t) :
    e'.step t = e.step t := by
  unfold Engine.step
  rw [Array.getD_eq_getD_getElem?, Array.getD_eq_getD_getElem?, h.steps t ht]

theorem near_of_elsewhere (h : Elsewhere seen own w e e') : Near seen own w e e' where
  workflow := h.workflow
  hasWorkflow := h.hasWorkflow
  hasStep t ht hs := by
    have := h.steps t ht
    rw [Array.getElem?_eq_getElem hs] at this
    exact (Array.getElem?_eq_some_iff.mp this).1
  successors t ht := by rw [h.step ht]
  decisions t ht := by rw [h.step ht]
  final t ht hc := by rw [h.step ht]; exact ⟨hc, rfl⟩
  fresh t ht _ hf := by rw [h.step ht]; exact hf
  adds t ht hs := .inl (h.adds t ht hs)

theorem eqButListeners_mapWorkflow {v : WorkflowId} {f : Workflow → Workflow}
    (hf : ∀ wf : Workflow, wf.EqButListeners (f wf)) :
    (e.workflow w).EqButListeners ((e.mapWorkflow v f).workflow w) := by
  rw [workflow_mapWorkflow]
  split
  · exact hf _
  · exact refl _

/-- Anyone may come to listen to a workflow. -/
theorem elsewhere_listenTo (v : WorkflowId) (l : Listener) :
    Elsewhere seen own w e ((listenTo v l).run e).2 where
  hasWorkflow := (hasWorkflow_mapWorkflow e v w _).mpr
  workflow := eqButListeners_mapWorkflow fun _ => ⟨_, rfl⟩
  steps _ _ := rfl
  adds _ _ h := h

theorem Walking.next {h : Hooks σ γ} (hq : h.Quiet) (hl : h.Logs seen) (hk : Walking seen own w e)
    (op : Operation σ γ) (hd : Drives h seen own w e op) : Walking seen own w (next h e op) := by
  unfold Engine.next
  cases op with
  | advance v context =>
    obtain ⟨rfl, hx⟩ := hd
    have ha := hk.ends_advance hq hl context
    -- A failure is not the one that is excluded, so there is a walk in either case.
    show Walking seen own v (next h e (.advance v context))
    rw [next_advance]
    rcases hr : (advance h v context).run e with ⟨x | st, e'⟩
    · rw [hr] at hx
      exact ha.of_error hr fun a b hab => hx a b (by rw [hab])
    · exact ha.of_ok hr
  | abort v =>
    have hv : v = w := hd
    subst hv
    exact (hk.ends_abort hq hl).state
  | resolve s o =>
    have hs : s = (e.workflow w).current := hd
    refine Ends.state ((resolve_ends s o e).mono ?_ fun _ e' he => ?_)
    · rintro _ e' ⟨hc, -, t, he⟩
      subst hs
      exact hk.of_near (near_of_worked
        (worked_mapStep (·.given o t) (Step.worked_of_frame hc (Step.frame_given ..)) he))
    · rw [he]; exact hk
  | reassign s actor =>
    refine Ends.state ((reassign_ends s actor e).mono (fun _ e' he => ?_) fun _ e' he => ?_)
    · have hn : Near seen own w e (e.mapStep s ({ · with actor })) :=
        near_mapStep s (fun _ => rfl) (fun _ => rfl) (fun _ => rfl) (fun _ => rfl) fun _ => rfl
      exact (hk.of_near hn).of_near (near_of_core he.core (adds_of_host he.host))
    · rw [he]; exact hk
  | other action => exact hk.of_near (near_of_elsewhere hd)
  | start | decide | decideQueued | reassignQueued => exact hd.elim

structure Added (e₀ : Engine σ) (wf : Workflow) (w : WorkflowId) (e : Engine σ) : Prop where
  hasWorkflow : e.HasWorkflow w
  workflow : e.workflow w = wf
  steps : e.steps = (e₀.mapStep wf.first (·.boundTo wf)).steps
  host : e.host = e₀.host

theorem added_of_made {e₀ : Engine σ} {key : String} {first : StepId} {owner : Option Actor} {id : Int}
    {context : Context} (made : (addWorkflow key first owner id context).run e₀ = (.ok w, e)) :
    Added e₀ { key, owner, id, first, current := first, context := ⟨e₀.contexts.size⟩ } w e := by
  obtain ⟨-, rfl, wf, rfl, rfl⟩ := (addWorkflow_ends key first owner id context e₀).of_ok made
  refine ⟨?_, ?_, rfl, rfl⟩
  · simp [HasWorkflow]
  · simp [Engine.workflow, Array.getD_eq_getD_getElem?]

/-- A workflow that has not left its first step is at the beginning of its walk. -/
theorem walking_of_beginning (hw : e.HasWorkflow w) (hstate : (e.workflow w).state = .created)
    (hcur : (e.workflow w).current = (e.workflow w).first) (hhistory : (e.workflow w).history = [])
    (hprevious : (e.workflow w).previous = none) (hfirst : own (e.workflow w).first)
    (hclosed : ∀ s, own s → ∀ t ∈ e.targets s, own t) (hsteps : ∀ t, own t → e.HasStep t)
    (hfresh : ∀ t, own t → t ≠ (e.workflow w).first → (e.step t).Fresh ∧ t ∉ seen e.host) :
    Walking seen own w e := by
  -- The walk is the first step alone.
  have hwalk : (e.workflow w).walk = [(e.workflow w).first] := by
    unfold Workflow.walk
    rw [hhistory, hcur]
    rfl
  refine ⟨⟨?begins, ?chain, ?distinct, ?done, ?outside, ?previous, ?terminal, ?settled, ?asks⟩,
    hw, hsteps, hclosed, ?inside⟩
  all_goals try rw [hwalk]
  case begins => rfl
  case chain => exact .singleton _
  case distinct => exact List.pairwise_singleton _ _
  case previous => exact hprevious
  case done => rw [hhistory]; exact nofun
  case terminal => rw [hstate, hhistory]; exact ⟨nofun, nofun⟩
  case settled => rw [hstate]; exact nofun
  case asks => rw [hstate]; exact nofun
  case inside =>
    intro t ht
    rw [List.mem_singleton.mp ht]
    exact hfirst
  case outside =>
    intro t ht htw
    exact hfresh t ht fun h => htw (h ▸ List.mem_singleton_self t)

/-- A new workflow is at the beginning of its walk. -/
theorem walking_addWorkflow {e₀ : Engine σ} {key : String} {first : StepId} {owner : Option Actor}
    {id : Int} {context : Context}
    (made : (addWorkflow key first owner id context).run e₀ = (.ok w, e))
    (fresh : ∀ t, e₀.Leads first t → e₀.HasStep t ∧ (e₀.step t).Fresh ∧ t ∉ seen e₀.host) :
    Walking seen (e₀.Leads first) w e := by
  have ha := added_of_made made
  have hwf := ha.workflow
  have hsteps := step_of_steps ha.steps
  have htargets : ∀ t, e.targets t = e₀.targets t := by
    intro t
    unfold targets
    rw [hsteps, step_mapStep_eq (g := Step.successors) rfl]
  refine walking_of_beginning ha.hasWorkflow ?_ ?_ ?_ ?_ ?_ (fun s hs t ht => ?closed)
    (fun t ht => ?hasStep) (fun t ht hne => ?fresh)
  case closed =>
    rw [htargets] at ht
    exact hs.tail ht
  case hasStep =>
    exact (hasStep_of_steps ha.steps t).mpr ((hasStep_mapStep e₀ first t _).mpr (fresh t ht).1)
  case fresh =>
    rw [hwf] at hne
    rw [hsteps, step_mapStep_of_ne t _ hne, ha.host]
    exact (fresh t ht).2
  all_goals rw [hwf]
  exact .refl

/-- However a workflow is driven, it walks along the graph of its steps. -/
theorem walks_along_graph {h : Hooks σ γ} (hq : h.Quiet) (hl : h.Logs seen) {e₀ : Engine σ}
    {key : String} {first : StepId} {owner : Option Actor} {id : Int} {context : Context}
    (made : (addWorkflow key first owner id context).run e₀ = (.ok w, e))
    (fresh : ∀ t, e₀.Leads first t → e₀.HasStep t ∧ (e₀.step t).Fresh ∧ t ∉ seen e₀.host)
    {ops : List (Operation σ γ)} (hops : Along h (Drives h seen (e₀.Leads first) w) e ops) :
    Walks seen (e₀.Leads first) w (runs h e ops) := by
  have hk := walking_addWorkflow made fresh
  have hrun := runs_invariant (P := Walking seen (e₀.Leads first) w)
    (fun _ op hk hd => Walking.next hq hl hk op hd) hk hops
  exact hrun.toWalks

/-! ## A review -/

def loggingHooks : Hooks (List StepId) Unit where
  starting _ := pure ()
  execute s _ := do
    updateHost (· ++ [s])
    return .complete
  present s _ := updateHost (· ++ [s])
  observe _ _ := pure ()
  room := 0

theorem quiet_loggingHooks : loggingHooks.Quiet where
  starting _ _ := rfl
  execute _ _ _ := rfl
  present _ _ _ := rfl
  observe _ _ _ := rfl

theorem logs_loggingHooks : loggingHooks.Logs id where
  starting _ _ _ h := .inl h
  execute _ _ _ _ h := (List.mem_append.mp h).imp_right List.mem_singleton.mp
  present _ _ _ _ h := (List.mem_append.mp h).imp_right List.mem_singleton.mp
  observe _ _ _ _ h := .inl h

/-- A report is prepared, reviewed and, if it is approved, published. -/
def reviewSteps : Engine (List StepId) where
  steps := #[(Step.task "Task" "prepare" none).withSuccessor .complete (some ⟨1⟩),
    (Step.ofDecision "Decision" "review" (some ⟨"anna"⟩) 1 [.approve, .deny] true).withSuccessor
      .approve (some ⟨2⟩),
    Step.task "Task" "publish" none]
  clock := .counter 1 1
  host := []

def review : Engine (List StepId) := ((addWorkflow "report" ⟨0⟩ none 1 []).run reviewSteps).2

/-- Somebody listens to the review, which is given to another actor, who approves. -/
def approval : List (Operation (List StepId) Unit) :=
  [.other (listenTo ⟨0⟩ (.observer ⟨0⟩)), .advance ⟨0⟩ (), .reassign ⟨1⟩ (some ⟨"bert"⟩),
    .resolve ⟨1⟩ .approve, .advance ⟨0⟩ ()]

theorem ne_error_of_toOption {α : Type} {r : Except Failure α} {a : α} (h : r.toOption = some a)
    (x : Failure) : r ≠ .error x := by
  intro hr
  rw [hr] at h
  contradiction

theorem leads_review {t : StepId} (h : reviewSteps.Leads ⟨0⟩ t) :
    t ∈ [(⟨0⟩ : StepId), ⟨1⟩, ⟨2⟩] :=
  Leads.mem (by decide +kernel) List.mem_cons_self h

theorem review_walks :
    Along loggingHooks (Drives loggingHooks id (reviewSteps.Leads ⟨0⟩) ⟨0⟩) review approval ∧
      ((runs loggingHooks review approval).workflow ⟨0⟩).walk = [⟨0⟩, ⟨1⟩, ⟨2⟩] ∧
      Walks id (reviewSteps.Leads ⟨0⟩) ⟨0⟩ (runs loggingHooks review approval) := by
  have hfirst : ((advance loggingHooks ⟨0⟩ ()).run
      (runs loggingHooks review (approval.take 1))).1.toOption = some .waiting := by decide +kernel
  have hsecond : ((advance loggingHooks ⟨0⟩ ()).run
      (runs loggingHooks review (approval.take 4))).1.toOption = some .completed := by decide +kernel
  have hcur : ((runs loggingHooks review (approval.take 3)).workflow ⟨0⟩).current = ⟨1⟩ := by
    decide +kernel
  have hops : Along loggingHooks (Drives loggingHooks id (reviewSteps.Leads ⟨0⟩) ⟨0⟩) review
      approval :=
    ⟨elsewhere_listenTo _ _, ⟨rfl, fun _ _ => ne_error_of_toOption hfirst _⟩, trivial, hcur.symm,
      ⟨rfl, fun _ _ => ne_error_of_toOption hsecond _⟩, trivial⟩
  have hfresh : ∀ t ∈ [(⟨0⟩ : StepId), ⟨1⟩, ⟨2⟩], reviewSteps.HasStep t ∧
      (reviewSteps.step t).state = .created ∧ (reviewSteps.step t).isStarted = false := by
    decide +kernel
  refine ⟨hops, by decide +kernel, walks_along_graph quiet_loggingHooks logs_loggingHooks
    (show (addWorkflow "report" ⟨0⟩ none 1 []).run reviewSteps = (.ok ⟨0⟩, review) from rfl) ?_ hops⟩
  intro t ht
  obtain ⟨hs, hc, hu⟩ := hfresh t (leads_review ht)
  exact ⟨hs, ⟨hc, hu⟩, nofun⟩

end Engine

end ApprovalFlow
