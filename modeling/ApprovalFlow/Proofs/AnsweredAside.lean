import ApprovalFlow.Proofs.ManagedChanges
import ApprovalFlow.Proofs.DecisionGate

/-!
# Answered decisions that are left in the queue

A decision leaves the queue of its manager when it is answered through the queue, and when its workflow is
over. One that is answered directly while it is in the queue is taken out only with the end of its workflow:
when that goes on to something else, the answered decision is left behind (`left_iff_answeredAside`).
-/

namespace ApprovalFlow

variable {σ γ : Type}

def Operation.Answers (s : StepId) : Operation σ γ → Prop
  | .resolve t _ => t = s
  | .other action => ∃ o, action = Engine.setOutcome s o
  | _ => False

namespace Engine

open Act

variable {h : Hooks σ γ} {m : ManagerId} {members : WorkflowId → Prop}
  {own : WorkflowId → StepId → Prop} {w v : WorkflowId} {s t : StepId} {silent : Prop}
  {op : Operation σ γ} {ops : List (Operation σ γ)} {e e₁ e' e'' : Engine σ}

/-- The operation is one on the manager, its queue or one of its workflows, or answers a decision
directly. -/
def Attends (m : ManagerId) (members : WorkflowId → Prop) (e : Engine σ) (op : Operation σ γ) : Prop :=
  Manages m members e op ∨ ∃ s, op.Answers s

/-- The decision is in the queue of the manager `m` though it has been answered. -/
def Left (m : ManagerId) (e : Engine σ) (s : StepId) : Prop :=
  s ∈ (e.desk m).queue ∧ (e.step s).isCompleted = true

/-- In the course of a run the decision was answered directly while it was in the queue. -/
def AnsweredAside (h : Hooks σ γ) (m : ManagerId) (e : Engine σ) (ops : List (Operation σ γ))
    (s : StepId) : Prop :=
  ∃ past op, past ++ [op] <+: ops ∧ op.Answers s ∧ s ∈ ((runs h e past).desk m).queue ∧
    ((runs h e past).step s).isCompleted = false ∧ ((runs h e (past ++ [op])).step s).isCompleted = true

def Pruned (m : ManagerId) (e : Engine σ) : Prop :=
  ∀ id v, running? e m id = some v → (e.workflow v).state.isTerminal = false

/-- Workflows that are over stay over, and of the answered decisions in the queue just those are left whose
workflow is not over. -/
structure Sweeps (m : ManagerId) (members : WorkflowId → Prop) (own : WorkflowId → StepId → Prop)
    (e e' : Engine σ) : Prop where
  ended : ∀ w, members w → (e.workflow w).state.isTerminal = true → (e'.workflow w).state.isTerminal = true
  left : ∀ w, members w → ∀ s, own w s →
    (Left m e' s ↔ Left m e s ∧ (e'.workflow w).state.isTerminal = false)

structure Tidies (m : ManagerId) (members : WorkflowId → Prop) (own : WorkflowId → StepId → Prop)
    (e e' : Engine σ) : Prop extends Sweeps m members own e e' where
  pruned : Pruned m e'

/-! ## Sweeping -/

theorem Sweeps.trans (h : Sweeps m members own e e') (h' : Sweeps m members own e' e'') :
    Sweeps m members own e e'' where
  ended v hv ho := h'.ended v hv (h.ended v hv ho)
  left v hv s hs := by
    rw [h'.left v hv s hs, h.left v hv s hs, and_assoc]
    refine and_congr_right fun _ => and_iff_right_of_imp fun hlive => ?_
    -- What is over by now would be over still.
    rw [← Bool.not_eq_true] at hlive ⊢
    exact fun ho => hlive (h'.ended v hv ho)

theorem Tidies.trans (h : Sweeps m members own e e') (h' : Tidies m members own e' e'') :
    Tidies m members own e e'' := ⟨h.trans h'.toSweeps, h'.pruned⟩

section Register

variable (hr : Registry m members own e) (hp : Pruned m e)
include hr hp

/-- The workflow of a queued decision is not over. -/
theorem Registry.live_of_queued (hw : members w) (hown : own w s) (hs : s ∈ (e.desk m).queue) :
    (e.workflow w).state.isTerminal = false := by
  obtain ⟨-, v, hv, hrun, hv', -⟩ := hr.queued s hs
  obtain rfl := hr.owner_unique hv hw hv' hown
  exact hp _ v hrun

/-- Where neither workflows nor the queue nor what is completed has changed. -/
theorem Registry.sweeps_of_same (hst : ∀ v, (e'.workflow v).state = (e.workflow v).state)
    (hq : (e'.desk m).queue = (e.desk m).queue)
    (hc : ∀ s, (e'.step s).isCompleted = (e.step s).isCompleted) : Sweeps m members own e e' where
  ended v _ ho := by rw [hst]; exact ho
  left v hv s hs := by
    unfold Left
    rw [hq, hc, hst]
    exact (and_iff_left_of_imp fun hl => hr.live_of_queued hp hv hs hl.1).symm

theorem Registry.tidies_refl : Tidies m members own e e :=
  ⟨hr.sweeps_of_same hp (fun _ => rfl) rfl fun _ => rfl, hp⟩

theorem Reassigned.tidies (ha : Reassigned m e e') : Tidies m members own e e' where
  toSweeps := by
    refine hr.sweeps_of_same hp (fun v => by rw [ha.steady.workflow]) (by rw [ha.desk]) fun s => ?_
    obtain ⟨actor, hs⟩ := ha.steps s
    rw [hs]
    rfl
  pruned id v hv := by
    rw [ha.steady.workflow]
    exact hp id v (ha.steady.running? id ▸ hv)

/-- A decision that is answered through the queue is not left in it. -/
theorem Answered.tidies (ha : Answered m t e e') (hopen : (e.step t).isCompleted = false) :
    Tidies m members own e e' where
  ended v _ ho := by rw [ha.steady.workflow]; exact ho
  left v hv s hs := by
    rw [ha.steady.workflow]
    refine Iff.trans ?_ (and_iff_left_of_imp fun hl => hr.live_of_queued hp hv hs hl.1).symm
    unfold Left
    rw [ha.desk, Desk.mem_keeping]
    by_cases hst : s = t
    · subst hst
      rw [hopen]
      refine iff_of_false ?_ fun hl => Bool.false_ne_true hl.2
      rintro ⟨⟨-, hn⟩, hc⟩
      rw [hc, beq_self_eq_true] at hn
      contradiction
    · rw [beq_eq_false_iff_ne.mpr hst, ha.others s hst]
      exact and_congr_left fun _ => and_iff_left rfl
  pruned id v hv := by
    rw [ha.steady.workflow]
    exact hp id v (ha.steady.running? id ▸ hv)

theorem Accepted.tidies {n : Int} (ha : Accepted m w n e e')
    (hst : (e.workflow w).state = .created) : Tidies m members own e e' := by
  have hstate : ∀ v, (e'.workflow v).state = (e.workflow v).state := by
    intro v
    by_cases hv : v = w
    · rw [hv, ha.self]
    · rw [ha.others v hv]
  refine ⟨hr.sweeps_of_same hp hstate ha.queue ha.completed, fun id v hv => ?_⟩
  rw [hstate]
  rw [ha.running?] at hv
  split at hv
  · rw [← Option.some.inj hv, hst]
    rfl
  · exact hp id v hv

section Conduct

variable (hw : members w) (hc : Conduct silent m (own w) w e e') (hsil : silent)
include hw hc hsil

theorem Conduct.pruned : Pruned m e' := by
  intro id v hv
  have hv₀ := hr.running_conduct hc hv
  obtain ⟨-, hman, hid⟩ := hr.registered id v hv₀
  have hlive := hp id v hv₀
  by_cases hvw : v = w
  case neg =>
    rw [hc.confined.others v hvw]
    exact hlive
  subst hvw
  cases hc.effect with
  | idle hsame _ _ => rw [hsame]; exact hlive
  | runs hrun _ => rw [hrun]; rfl
  | unheard hno _ => exact absurd hman hno
  | waits _ hasks _ _ => rw [hasks.waiting]; rfl
  | lost _ _ hraised _ _ _ => exact absurd hsil hraised
  | ends _ _ _ hd =>
    -- It has been taken out of the register.
    rw [running?_eq, hd, ← hid, Desk.get?_filed hr.keys] at hv
    contradiction

/-- What a workflow does sweeps the queue, if it completes no decision in it but those with which it ends. -/
theorem Conduct.sweeps (hdone : (e'.workflow w).state.isTerminal = false → ∀ s ∈ (e.desk m).queue,
      (e'.step s).isCompleted = (e.step s).isCompleted) : Sweeps m members own e e' where
  ended v _ ho := by
    by_cases hvw : v = w
    · rw [hvw] at ho ⊢
      rw [hc.live ho]
      exact ho
    · rw [hc.confined.others v hvw]
      exact ho
  left v hv s hs := by
    have hr' := hr.of_conduct hw hc
    have hp' := hc.pruned hr hp hw hsil
    by_cases hvw : v = w
    case neg =>
      have hqueue := (hr.spares_conduct hw hc hv fun h => hvw h.symm).queue s hs
      unfold Left
      rw [hqueue, hr.step_of_ne hw hc hv hvw hs, hc.confined.others v hvw]
      exact (and_iff_left_of_imp fun hl => hr.live_of_queued hp hv hs hl.1).symm
    subst hvw
    constructor
    · intro hl
      have hlive := hr'.live_of_queued hp' hv hs hl.1
      refine ⟨?_, hlive⟩
      rcases hc.effect.queued hl.1 with hq | ⟨rfl, hasks⟩
      · exact ⟨hq, hdone hlive s hq ▸ hl.2⟩
      · -- The decision that has just been enlisted is not answered.
        exact absurd (hasks.unanswered.symm.trans hl.2) nofun
    · rintro ⟨hl, hlive⟩
      exact ⟨hc.effect.still_queued hsil hlive hl.1, (hdone hlive s hl.1).trans hl.2⟩

end Conduct

end Register

/-! ## Operations -/

/-- Aborting a workflow ends it, unless it was over before. -/
theorem abort_over (hq : h.Quiet) (hw : e.HasWorkflow w) :
    (abort h w).Ends e (fun _ e' => e' = e ∨ (e'.workflow w).state.isTerminal = true)
      (fun _ e' => e' = e ∨ (e'.workflow w).state.isTerminal = true) := by
  refine abort_closes (fun _ _ => .inl rfl) fun _ e₁ h₁ e' he' _ => ?_
  have hw₁ : e₁.HasWorkflow w := by
    split at h₁
    · exact h₁ ▸ hw
    · exact (hasWorkflow_of_core h₁.1.core w).mpr hw
  have hover : (e'.workflow w).state.isTerminal = true := by
    rw [workflow_of_core he'.core, workflow_mapWorkflow_self _ hw₁, Workflow.state_aborted]
    rfl
  refine ((emit_told hq h.logs_nil w _).ends e').mono (fun _ e'' ht => .inr ?_) fun _ e'' ht => .inr ?_
  all_goals
    rw [workflow_of_workflows ht.workflows]
    exact hover

section Operations

variable (hq : h.Quiet) (hsil : h.Silent) (ho : Orderly m members own e) (hp : Pruned m e)
include hq hsil ho hp

theorem tidies_advance (hw : members w) (context : γ) :
    (advance h w context).Ends e (fun _ => Tidies m members own e) (fun _ => Tidies m members own e) := by
  have hdefers : (advance h w context).Always (Defers fun _ => False) :=
    (tolerates_defers (fun _ => False) w).advance hq
  refine ((ho.ready hw).conduct_advance hq context |>.and (hdefers.ends e)).mono ?_ ?_
  all_goals
    rintro _ e' ⟨hc, hd⟩
    refine ⟨hc.sweeps ho.toRegistry hp hw hsil fun _ s hs => ?_, hc.pruned ho.toRegistry hp hw hsil⟩
    exact (hd s).completed id (ho.queued s hs).1

theorem tidies_abort (hw : members w) :
    (abort h w).Ends e (fun _ => Tidies m members own e) (fun _ => Tidies m members own e) := by
  have hover := abort_over hq (ho.member w hw).hasWorkflow
  refine ((ho.ready hw).conduct_abort hq |>.and hover).mono ?_ ?_
  all_goals
    rintro _ e' ⟨hc, ho'⟩
    refine ⟨hc.sweeps ho.toRegistry hp hw hsil fun hlive s _ => ?_, hc.pruned ho.toRegistry hp hw hsil⟩
    rcases ho' with rfl | hover
    · rfl
    · exact absurd (hlive.symm.trans hover) nofun

theorem tidies_start (hw : members w) (context : γ)
    (hfree : FreeId m e (.start m w context : Operation σ γ)) :
    (startManaged h m w context).Ends e (fun _ => Tidies m members own e)
      (fun _ => Tidies m members own e) := by
  have hstarts : ∀ n e₁ e', (e.workflow w).state = .created → Accepted m w n e e₁ →
      Conduct h.Silent m (own w) w e₁ e' → Defers (fun _ => False) e e' →
        Tidies m members own e e' := by
    intro n e₁ e' hst ha hc hd
    obtain ⟨hobs, hcur, -⟩ := ho.newcomers w hw hst
    have hr₁ := ho.toRegistry.of_accepted ha hw hobs hcur (ha.free hfree rfl hst)
    have h₁ := ha.tidies ho.toRegistry hp hst
    refine .trans h₁.toSweeps ⟨hc.sweeps hr₁ h₁.pruned hw hsil fun _ s hs => ?_,
      hc.pruned hr₁ h₁.pruned hw hsil⟩
    rw [ha.completed]
    exact (hd s).completed id ((ha.decisions s).symm.trans (hr₁.queued s hs).1)
  have hdefers : (startManaged h m w context).Always (Defers fun _ => False) := defers_startManaged hq
  refine ((ho.startManaged_ends hq hw context).and (hdefers.ends e)).mono ?_ ?_
  · rintro _ e' ⟨⟨n, e₁, hst, ha, hc⟩, hd⟩
    exact hstarts n e₁ e' hst ha hc hd
  · rintro _ e' ⟨⟨rfl, -⟩ | ⟨n, e₁, hst, ha, hc⟩, hd⟩
    · exact ho.toRegistry.tidies_refl hp
    · exact hstarts n e₁ e' hst ha hc hd

/-- A decision is answered through the queue, or nothing changes. -/
theorem tidies_decideQueued (s : StepId) (o : Outcome) (actor : Option Actor) :
    (decideQueued h (e.manager m).queue s o actor).Ends e
      (fun _ e' => s ∈ (e.desk m).queue ∧ Answered m s e e' ∧ Tidies m members own e e')
      (fun _ e' => e' = e) := by
  have hdecides := decideQueued_decides ⟨hq.observe, hsil⟩ (e.manager m).queue s o actor e
  refine ((decideQueued_ends hq ho.hasDesk o actor).and hdecides).mono ?_ fun _ _ h => h.2
  rintro _ e' ⟨⟨hs, ha⟩, hd⟩
  exact ⟨hs, ha, ha.tidies ho.toRegistry hp hd.unanswered⟩

theorem tidies_decide (s : StepId) (o : Outcome) (actor : Option Actor) (context : γ) :
    (decide h m s o actor context).Ends e (fun _ => Tidies m members own e)
      (fun _ => Tidies m members own e) := by
  have hsame := ho.toRegistry.tidies_refl hp
  unfold Engine.decide
  simp only [ends_bind, ends_get]
  cases hrun : running? e m ((e.step s).workflowId.getD 0) with
  | none =>
    dsimp only
    rw [ends_bind]
    unfold numberOf
    rw [ends_bind, ends_get]
    dsimp only
    split <;> exact hsame
  | some w =>
    dsimp only
    rw [ends_bind]
    refine (tidies_decideQueued hq hsil ho hp s o actor).mono ?_ fun _ _ he => he ▸ hsame
    rintro _ e₁ ⟨hs, ha, h₁⟩
    refine (tidies_advance hq hsil (ho.of_answered ha hs) h₁.pruned (ho.registered _ w hrun).1
      context).mono (fun _ _ h₂ => .trans h₁.toSweeps h₂) fun _ _ h₂ => .trans h₁.toSweeps h₂

/-- Whatever is done by way of the manager sweeps the queue. -/
theorem next_tidies (hop : Manages m members e op) (hfree : FreeId m e op) :
    Tidies m members own e (next h e op) := by
  have hreassigned : ∀ e', Reassigned m e e' → Tidies m members own e e' := fun _ ha =>
    ha.tidies ho.toRegistry hp
  refine Ends.state (P := Tidies m members own e) ?_
  cases op with
  | advance w context => exact (ends_bind _ _).mpr (tidies_advance hq hsil ho hp hop context)
  | abort w => exact tidies_abort hq hsil ho hp hop
  | start n w context =>
    obtain ⟨rfl, hw⟩ := hop
    exact (ends_bind _ _).mpr (tidies_start hq hsil ho hp hw context hfree)
  | decide n s o actor context =>
    have hn : n = m := hop
    subst hn
    exact (ends_bind _ _).mpr (tidies_decide hq hsil ho hp s o actor context)
  | decideQueued q s o actor =>
    have hqm : q = (e.manager m).queue := hop
    subst hqm
    exact (tidies_decideQueued hq hsil ho hp s o actor).mono (fun _ _ h => h.2.2) fun _ _ he =>
      he ▸ ho.toRegistry.tidies_refl hp
  | reassign s actor =>
    exact (reassign_reassigned ho.hasDesk actor).mono (fun _ => hreassigned) fun _ => hreassigned
  | reassignQueued q s actor =>
    exact (reassignQueued_reassigned hq ho.hasDesk q actor).mono (fun _ => hreassigned)
      fun _ => hreassigned
  | resolve | other => exact hop.elim

end Operations

/-! ## Answers that bypass the queue -/

theorem desk_of_given {o : Outcome} {time : Instant}
    (he : e'.Alike (e.mapStep t (·.given o time))) : e'.desk m = e.desk m := by
  unfold Engine.desk
  rw [manager_of_core he.core, queue_of_core he.core]
  rfl

/-- The step `t` has been given an outcome, and nothing else has changed. -/
theorem steady_of_given (hd : e.HasDesk m) {o : Outcome} {time : Instant}
    (he : e'.Alike (e.mapStep t (·.given o time))) : Steady m e e' := by
  have hframe : ∀ s, (e'.step s).frame = (e.step s).frame := by
    intro s
    rw [step_of_core he.core]
    exact step_mapStep_eq (f := (·.given o time)) (Step.frame_given (e.step t) o time) s
  have hdesk : e'.desk m = e.desk m := desk_of_given he
  exact
    { workflows := congrArg Core.workflows he.core
      size := (congrArg (·.steps.size) he.core).trans (Array.size_modify ..)
      targets := fun s => targets_of_successors (Step.successors_of_frame (hframe s))
      decisions := fun s => Step.isDecision_of_frame (hframe s)
      bindings := fun s => Step.workflowId_of_frame (hframe s)
      hasDesk := hd.same (congrArg Core.managers he.core) (congrArg Core.queues he.core)
      running := by rw [hdesk]
      finished := by rw [hdesk]
      queue := fun s hs => hdesk ▸ hs }

theorem Orderly.of_given (ho : Orderly m members own e) {o : Outcome} {time : Instant}
    (he : e'.Alike (e.mapStep t (·.given o time))) : Orderly m members own e' where
  toRegistry := ho.toRegistry.of_steady (steady_of_given ho.hasDesk he)
  newcomers v hv hst := by
    have hwf := (steady_of_given ho.hasDesk he).workflow v
    rw [hwf] at hst ⊢
    obtain ⟨hobs, hcur, hun⟩ := ho.newcomers v hv hst
    refine ⟨hobs, hcur, ?_⟩
    have hstart := step_mapStep_eq (f := (·.given o time)) (g := Step.startTime)
      (Step.startTime_given (e.step t) o time) (e.workflow v).current
    rw [step_of_core he.core]
    unfold Step.isStarted at hun ⊢
    rwa [hstart]

/-- What a direct answer comes to: the register, the queue and the workflows are as before, and no more
steps are completed than the answered one. -/
structure Bypassed (m : ManagerId) (members : WorkflowId → Prop) (own : WorkflowId → StepId → Prop)
    (op : Operation σ γ) (e e' : Engine σ) : Prop where
  orderly : Orderly m members own e'
  workflow : ∀ v, e'.workflow v = e.workflow v
  desk : e'.desk m = e.desk m
  completed : ∀ s, (e'.step s).isCompleted = true ↔
    (e.step s).isCompleted = true ∨
      op.Answers s ∧ (e.step s).isCompleted = false ∧ (e'.step s).isCompleted = true

theorem Orderly.bypassed_self (ho : Orderly m members own e) : Bypassed m members own op e e where
  orderly := ho
  workflow _ := rfl
  desk := rfl
  completed _ := (or_iff_left fun ⟨_, hopen, hc⟩ => absurd (hopen.symm.trans hc) nofun).symm

theorem Orderly.bypassed_of_given (ho : Orderly m members own e) (ha : op.Answers t)
    (hopen : (e.step t).isCompleted = false) {o : Outcome} {time : Instant}
    (he : e'.Alike (e.mapStep t (·.given o time))) : Bypassed m members own op e e' where
  orderly := ho.of_given he
  workflow v := (steady_of_given ho.hasDesk he).workflow v
  desk := desk_of_given he
  completed s := by
    by_cases hst : s = t
    · subst hst
      simp [hopen, ha]
    · have hstep : e'.step s = e.step s := by
        rw [step_of_core he.core, step_mapStep, if_neg fun h => hst h.1]
      rw [hstep]
      refine (or_iff_left fun ⟨_, hopen, hc⟩ => absurd (hopen.symm.trans hc) nofun).symm

theorem Orderly.next_bypassed (ho : Orderly m members own e) (ha : op.Answers s) :
    Bypassed m members own op e (next h e op) := by
  refine Ends.state (P := Bypassed m members own op e) ?_
  cases op with
  | resolve t o =>
    refine (resolve_ends t o e).mono ?_ fun _ e' he => by subst he; exact ho.bypassed_self
    rintro _ e' ⟨hopen, -, time, he⟩
    exact ho.bypassed_of_given rfl hopen he
  | other action =>
    have hact := ha
    obtain ⟨o, rfl⟩ := hact
    refine (setOutcome_ends s o e).mono ?_ fun _ e' he => by obtain ⟨rfl, -⟩ := he; exact ho.bypassed_self
    rintro _ e' ⟨hopen, time, he⟩
    exact ho.bypassed_of_given ha hopen he
  | _ => exact ha.elim

section Run

variable (hq : h.Quiet) (hsil : h.Silent)

theorem answeredAside_concat : AnsweredAside h m e (ops ++ [op]) s ↔ AnsweredAside h m e ops s ∨
    op.Answers s ∧ s ∈ ((runs h e ops).desk m).queue ∧ ((runs h e ops).step s).isCompleted = false ∧
      ((next h (runs h e ops) op).step s).isCompleted = true := by
  constructor
  · rintro ⟨past, op', hp, hrest⟩
    -- The answer was the last operation, or an earlier one.
    rcases List.prefix_concat_iff.mp hp with heq | hp
    · obtain ⟨rfl, hop⟩ := List.append_inj' heq rfl
      rw [List.singleton_inj.mp hop, runs_concat] at hrest
      exact .inr hrest
    · exact .inl ⟨past, op', hp, hrest⟩
  · rintro (⟨past, op', hp, hrest⟩ | hrest)
    · exact ⟨past, op', hp.trans (List.prefix_append ops [op]), hrest⟩
    · rw [← runs_concat] at hrest
      exact ⟨ops, op, List.prefix_refl _, hrest⟩

include hq hsil

/-- The register stays in order along a run, and the decisions that are left in the queue are those that
were answered directly. -/
theorem left_along (ho : Orderly m members own e) (hp : Pruned m e)
    (hnone : ∀ s, ¬Left m e s)
    (hops : Along h (fun e op => Attends m members e op ∧ FreeId m e op) e ops) :
    Orderly m members own (runs h e ops) ∧ Pruned m (runs h e ops) ∧
      ∀ w, members w → ∀ s, own w s → (Left m (runs h e ops) s ↔
        AnsweredAside h m e ops s ∧ ((runs h e ops).workflow w).state.isTerminal = false) := by
  refine runs_induction (P := fun ops => Orderly m members own (runs h e ops) ∧ Pruned m (runs h e ops) ∧
    ∀ w, members w → ∀ s, own w s → (Left m (runs h e ops) s ↔
      AnsweredAside h m e ops s ∧ ((runs h e ops).workflow w).state.isTerminal = false)) ?_
    (fun ops op _ hop ih => ?_) hops
  · refine ⟨ho, hp, fun w _ s _ => iff_of_false (hnone s) ?_⟩
    rintro ⟨⟨past, op, hpre, -⟩, -⟩
    have := List.prefix_nil.mp hpre
    simp at this
  obtain ⟨ho₁, hp₁, hleft⟩ := ih
  rw [runs_concat]
  generalize he₁ : runs h e ops = e₁ at *
  obtain ⟨hman | ⟨t, ht⟩, hfree⟩ := hop
  · have h₂ := next_tidies hq hsil ho₁ hp₁ hman hfree
    refine ⟨(ho₁.dealing hq hman).orderly ho₁ hfree, h₂.pruned, fun w hw s hs => ?_⟩
    -- No decision is answered directly, so the old ones are left whose workflow is not over.
    have hno : ¬op.Answers s := by
      intro ha
      cases op <;> first | exact hman | exact ha
    rw [h₂.left w hw s hs, hleft w hw s hs, answeredAside_concat]
    simp only [hno, false_and, or_false, and_assoc]
    refine and_congr_right fun _ => and_iff_right_of_imp fun hlive => ?_
    rw [← Bool.not_eq_true] at hlive ⊢
    exact fun hover => hlive (h₂.ended w hw hover)
  · have h₂ := ho₁.next_bypassed (h := h) ht
    refine ⟨h₂.orderly, fun id v hv => ?_, fun w hw s hs => ?_⟩
    · rw [h₂.workflow]
      rw [running?_eq, h₂.desk, ← running?_eq] at hv
      exact hp₁ id v hv
    have hlive := ho₁.toRegistry.live_of_queued hp₁ hw hs
    have hold := hleft w hw s hs
    unfold Left at hold ⊢
    rw [h₂.desk, h₂.workflow, h₂.completed, and_or_left, hold, answeredAside_concat, he₁, or_and_right]
    refine or_congr_right ⟨fun ⟨hin, hnew⟩ => ⟨⟨hnew.1, hin, hnew.2⟩, hlive hin⟩, ?_⟩
    exact fun ⟨⟨hans, hin, hnew⟩, _⟩ => ⟨hin, hans, hnew⟩

end Run

/-- What is left in the queue of a manager: the decisions that were answered directly while they were in it
and whose workflow is not over. Those that are answered through the queue, or by way of the manager, are
never left. -/
theorem left_iff_answeredAside (hq : h.Quiet) (hsil : h.Silent) (hopen : Opening m members e)
    (hops : Along h (fun e op => Attends m members e op ∧ FreeId m e op) e ops)
    (hw : members w) (hs : e.graph w s) :
    Left m (runs h e ops) s ↔
      AnsweredAside h m e ops s ∧ ((runs h e ops).workflow w).state.isTerminal = false := by
  refine (left_along hq hsil hopen.orderly (fun id v hv => ?_) (fun s hl => ?_) hops).2.2 w hw s hs
  · rw [running?_eq, hopen.desk] at hv
    contradiction
  · unfold Left at hl
    rw [hopen.desk] at hl
    exact absurd hl.1 List.not_mem_nil

/-! ## Two decisions, one after the other -/

def draftSteps : Engine (List StepId) where
  steps := #[(Step.ofDecision "Decision" "draft" (some ⟨"anna"⟩) 1 [.approve, .deny] false).withSuccessor
      .approve (some ⟨1⟩),
    Step.ofDecision "Decision" "final" (some ⟨"bert"⟩) 2 [.approve, .deny] false]
  clock := .counter 1 1
  host := []

def drafting : Engine (List StepId) :=
  ((do
    let _ ← addManager default
    addWorkflow "paper" ⟨0⟩ none 0 []).run draftSteps).2

def approvedAside : List (Operation (List StepId) Unit) :=
  [.start ⟨0⟩ ⟨0⟩ (), .resolve ⟨0⟩ .approve, .advance ⟨0⟩ ()]

theorem graph_drafting {s : StepId} (hs : drafting.graph ⟨0⟩ s) : s ∈ [(⟨0⟩ : StepId), ⟨1⟩] := by
  have hfirst : (drafting.workflow ⟨0⟩).first ∈ [(⟨0⟩ : StepId), ⟨1⟩] := by decide +kernel
  exact Leads.mem (by decide +kernel) hfirst hs

theorem opening_drafting : Opening ⟨0⟩ (· = ⟨0⟩) drafting := by
  have hfresh : ∀ s ∈ [(⟨0⟩ : StepId), ⟨1⟩], drafting.HasStep s ∧
      (drafting.step s).state = .created ∧ (drafting.step s).isStarted = false := by decide +kernel
  have hall : drafting.HasWorkflow ⟨0⟩ ∧ (drafting.workflow ⟨0⟩).state = .created ∧
      (drafting.workflow ⟨0⟩).listeners = [] ∧
      (drafting.workflow ⟨0⟩).current = (drafting.workflow ⟨0⟩).first ∧
      drafting.belongs ⟨0⟩ (drafting.workflow ⟨0⟩).first = true := by decide +kernel
  obtain ⟨hasWorkflow, hcreated, hlisteners, hcurrent, hbound⟩ := hall
  exact
    { hasDesk := ⟨by decide +kernel, by decide +kernel⟩
      desk := by decide +kernel
      hasWorkflow := by rintro w rfl; exact hasWorkflow
      created := by rintro w rfl; exact hcreated
      observed := by rintro w rfl; exact ⟨[], hlisteners⟩
      current := by rintro w rfl; exact hcurrent
      bound := by rintro w rfl; exact hbound
      fresh := by
        rintro w rfl s hs
        obtain ⟨hstep, hst, hun⟩ := hfresh s (graph_drafting hs)
        exact ⟨hstep, hst, hun⟩
      disjoint := fun w v hw hv hne => absurd (hw.trans hv.symm) hne }

theorem attends_approvedAside :
    Along loggingHooks (fun e op => Attends ⟨0⟩ (· = ⟨0⟩) e op ∧ FreeId ⟨0⟩ e op) drafting
      approvedAside := by
  have hrun : running? drafting ⟨0⟩ (drafting.desk ⟨0⟩).nextId = none := by decide +kernel
  exact ⟨⟨.inl ⟨rfl, rfl⟩, fun _ _ => hrun⟩, ⟨.inr ⟨⟨0⟩, rfl⟩, trivial⟩, ⟨.inl rfl, trivial⟩, trivial⟩

/-- The draft was answered aside, so it is left in the queue. -/
theorem draft_left :
    Opening ⟨0⟩ (· = ⟨0⟩) drafting ∧
      Along loggingHooks (fun e op => Attends ⟨0⟩ (· = ⟨0⟩) e op ∧ FreeId ⟨0⟩ e op) drafting
        approvedAside ∧
      Left ⟨0⟩ (runs loggingHooks drafting approvedAside) ⟨0⟩ := by
  refine ⟨opening_drafting, attends_approvedAside, ?_⟩
  refine (left_iff_answeredAside quiet_loggingHooks silent_loggingHooks opening_drafting
    attends_approvedAside rfl .refl).mpr ⟨⟨approvedAside.take 1, .resolve ⟨0⟩ .approve, ?_⟩, ?_⟩
  · exact ⟨⟨[.advance ⟨0⟩ ()], rfl⟩, rfl, by decide +kernel, by decide +kernel, by decide +kernel⟩
  · decide +kernel

/-- The last `advance` has returned, and the completed draft is in the queue with the final version. -/
theorem draft_straggles :
    ((advance loggingHooks ⟨0⟩ ()).run
        (runs loggingHooks drafting (approvedAside.take 2))).1.toOption = some .waiting ∧
      ((runs loggingHooks drafting approvedAside).desk ⟨0⟩).queue = [⟨0⟩, ⟨1⟩] ∧
      ((runs loggingHooks drafting approvedAside).step ⟨0⟩).isCompleted = true := by
  refine ⟨?_, ?_, ?_⟩
  all_goals decide +kernel

end Engine

end ApprovalFlow
