import ApprovalFlow.Engine.Approval
import ApprovalFlow.Proofs.ManagerInvariants
import ApprovalFlow.Proofs.Walk

/-!
# Drafting approval workflows

Making the workflow of a plan adds its decision, and the notice of a denial if there is one, to the steps.
The preparation leads to the decision, which leads to the completion or to the notice; nothing leads on from
those (`drafts`). To its manager it is a workflow like any other that has not started (`Draft.opening`).
-/

namespace ApprovalFlow

open Act

variable {σ : Type}

def Step.withFacts (st : Step) (facts : List Fact) : Step :=
  { st with decision := st.decision.map fun d => { d with facts := d.facts ++ facts } }

namespace Engine

namespace ApprovalPlan

variable (plan : ApprovalPlan)

def question (approver : Actor) (number : Nat) (notice : Option StepId) : Step where
  kind := "SimpleDecision"
  key := plan.decisionKey
  actor := some approver
  successors := [⟨.approve, plan.completion⟩, ⟨.deny, notice⟩, ⟨.reassign, none⟩]
  decision := some { number, reassignable := true, facts := plan.facts }

def notice (key : String) (number : Nat) : Step :=
  .notification "SimpleNotification" key plan.submitter number

/-- What the plan is to make a workflow of: tasks as they are made, not one for both, and not none. -/
structure Fits (e : Engine σ) : Prop where
  task : ∀ s, plan.preparation = some s ∨ plan.completion = some s →
    e.HasStep s ∧ ∃ kind key actor, e.step s = .task kind key actor
  distinct : ∀ s, plan.preparation = some s → plan.completion ≠ some s
  something : plan.preparation = none → plan.completion ≠ none

end ApprovalPlan

variable {plan : ApprovalPlan} {approver : Actor} {e e' : Engine σ} {s t : StepId} {st : Step}
  {F : Failure → Engine σ → Prop}

/-! ## Adding steps -/

def added (e : Engine σ) (st : Step) : Engine σ := { e with steps := e.steps.push st }

def nextStep (e : Engine σ) : StepId := ⟨e.steps.size⟩

theorem ne_nextStep (hs : e.HasStep s) : s ≠ e.nextStep := by
  rintro rfl
  exact Nat.lt_irrefl _ hs

theorem step_added (e : Engine σ) (st : Step) (t : StepId) :
    (e.added st).step t = if t = e.nextStep then st else e.step t := by
  unfold Engine.step added nextStep
  rw [Array.getD_eq_getD_getElem?, Array.getD_eq_getD_getElem?, Array.getElem?_push]
  have ht : t.index = e.steps.size ↔ t = ⟨e.steps.size⟩ := by cases t; simp
  simp only [ht]
  split <;> rfl

theorem hasStep_added (e : Engine σ) (st : Step) (t : StepId) :
    (e.added st).HasStep t ↔ e.HasStep t ∨ t = e.nextStep := by
  have ht : t = e.nextStep ↔ t.index = e.steps.size := by unfold nextStep; cases t; simp
  rw [ht, HasStep, HasStep, added, Array.size_push]
  omega

theorem nextStep_added (e : Engine σ) (st : Step) : (e.added st).nextStep = ⟨e.steps.size + 1⟩ :=
  congrArg StepId.mk (Array.size_push st)

theorem mapStep_added_self (e : Engine σ) (st : Step) (f : Step → Step) :
    (e.added st).mapStep e.nextStep f = e.added (f st) := by
  unfold mapStep added nextStep
  congr 1
  apply Array.ext
  · simp
  · intro i hi _
    simp only [Array.size_modify, Array.size_push] at hi
    simp only [Array.getElem_modify, Array.getElem_push]
    split <;> split <;> first | rfl | omega

theorem mapStep_added_of_hasStep (hs : e.HasStep s) (st : Step) (f : Step → Step) :
    (e.added st).mapStep s f = (e.mapStep s f).added st := by
  unfold HasStep at hs
  unfold mapStep added
  congr 1
  apply Array.ext
  · simp
  · intro i hi _
    simp only [Array.size_modify, Array.size_push] at hi
    simp only [Array.getElem_modify, Array.getElem_push, Array.size_modify]
    split <;> split <;> first | rfl | omega

theorem Alike.added (h : Alike e' e) (st : Step) : Alike (e'.added st) (e.added st) := by
  obtain ⟨hc, hh⟩ := h
  refine ⟨?_, hh⟩
  have hs : e'.steps = e.steps := congrArg Core.steps hc
  show (⟨e'.steps.push st, e'.workflows, e'.queues, e'.managers⟩ : Core) = _
  rw [hs, show e'.workflows = e.workflows from congrArg Core.workflows hc,
    show e'.queues = e.queues from congrArg Core.queues hc,
    show e'.managers = e.managers from congrArg Core.managers hc]
  rfl

def counted (e : Engine σ) : Engine σ := { e with decisions := e.decisions + 1 }

theorem alike_counted (e : Engine σ) : e.counted.Alike e := ⟨rfl, rfl⟩

theorem ends_addDecision {Q : StepId → Engine σ → Prop} (kind key : String) (actor : Option Actor)
    (outcomes : List Outcome) (reassignable : Bool) :
    (addDecision kind key actor outcomes reassignable).Ends e Q F ↔
      Q e.counted.nextStep
        (e.counted.added (.ofDecision kind key actor (e.decisions + 1) outcomes reassignable)) := Iff.rfl

theorem ends_addNotification {Q : StepId → Engine σ → Prop} (kind key : String) (actor : Option Actor) :
    (addNotification kind key actor).Ends e Q F ↔
      Q e.counted.nextStep (e.counted.added (.notification kind key actor (e.decisions + 1))) := Iff.rfl

/-! ## The decision -/

/-- The decision that has come last gets facts, in order. -/
theorem addFacts_ends (e : Engine σ) (facts : List Fact) (hd : st.isDecision = true) :
    (facts.forM (addFact e.nextStep)).Ends (e.added st) (fun _ e' => e' = e.added (st.withFacts facts))
      (fun _ _ => False) := by
  induction facts generalizing st with
  | nil =>
    have hsame : st.withFacts [] = st := by
      unfold Step.withFacts
      simp only [List.append_nil, Option.map_id']
    rw [hsame]
    exact rfl
  | cons f facts ih =>
    rw [ends_forM_cons]
    simp only [addFact, ends_bind, ends_get, ends_failIf, ends_updateStep, step_added, if_pos, hd,
      mapStep_added_self]
    have hd' : (st.withFacts [f]).isDecision = true := by
      unfold Step.withFacts Step.isDecision
      rw [Option.isSome_map]
      exact hd
    refine (ih hd').mono (fun _ e' he' => ?_) fun _ _ => id
    rw [he']
    congr 1
    unfold Step.withFacts
    simp only [Option.map_map, Function.comp_def, List.append_assoc, List.singleton_append]

/-- The place of the notice, if the plan has one, where the decision is the next step of `e`. -/
def noticeOf (e : Engine σ) (plan : ApprovalPlan) : Option StepId :=
  plan.rejectedKey.map fun _ => ⟨e.steps.size + 1⟩

/-- The engine with the decision of a plan and the notice, which have the given numbers. -/
def asking (e : Engine σ) (plan : ApprovalPlan) (approver : Actor) (n k : Nat) : Engine σ :=
  match plan.rejectedKey with
  | none => e.added (plan.question approver n (e.noticeOf plan))
  | some key => (e.added (plan.question approver n (e.noticeOf plan))).added (plan.notice key k)

theorem addApproval_ends (plan : ApprovalPlan) (approver : Actor) (e : Engine σ) :
    (addApproval plan approver).Ends e
      (fun d e' => d = e.nextStep ∧ ∃ n k, e'.Alike (e.asking plan approver n k)) (fun _ _ => False) := by
  unfold addApproval addSimpleDecision
  rw [ends_bind, ends_addDecision, ends_bind]
  refine (addFacts_ends e.counted plan.facts rfl).mono ?_ fun _ _ => id
  rintro _ _ rfl
  rw [ends_bind, addSuccessor, ends_updateStep, mapStep_added_self]
  cases hkey : plan.rejectedKey with
  | none =>
    refine ⟨rfl, e.decisions + 1, 0, ?_⟩
    unfold asking noticeOf
    rw [hkey]
    exact (alike_counted e).added _
  | some key =>
    dsimp only
    rw [ends_bind, ends_addNotification, ends_bind, addSuccessor, ends_updateStep]
    refine ⟨rfl, e.decisions + 1, e.decisions + 1 + 1, ?_⟩
    unfold asking noticeOf
    rw [hkey]
    -- The notice is there by now, so the decision is no more the last step.
    have hlast : e.counted.HasStep e.counted.nextStep ∨ e.counted.nextStep = e.counted.nextStep := .inr rfl
    refine ((((alike_counted _).added _).mapStep _ _).trans ?_)
    rw [mapStep_added_of_hasStep ((hasStep_added _ _ _).mpr hlast), mapStep_added_self,
      show ∀ e' : Engine σ, e'.counted.nextStep = e'.nextStep from fun _ => rfl, nextStep_added]
    exact ((alike_counted e).added _).added _

section Asking

variable (e : Engine σ) (plan : ApprovalPlan) (approver : Actor) (n k : Nat)

theorem noticeOf_eq_some_iff : e.noticeOf plan = some s ↔
    (∃ key, plan.rejectedKey = some key) ∧ s = ⟨e.steps.size + 1⟩ := by
  unfold noticeOf
  cases plan.rejectedKey with
  | none => exact ⟨nofun, fun h => nomatch h.1.choose_spec⟩
  | some key => exact ⟨fun h => ⟨⟨key, rfl⟩, (Option.some.inj h).symm⟩, fun h => h.2 ▸ rfl⟩

theorem hasStep_asking : (e.asking plan approver n k).HasStep s ↔
    e.HasStep s ∨ s = e.nextStep ∨ e.noticeOf plan = some s := by
  rw [noticeOf_eq_some_iff]
  unfold asking
  cases hkey : plan.rejectedKey with
  | none =>
    dsimp only
    rw [hasStep_added]
    simp
  | some key =>
    dsimp only
    rw [hasStep_added, hasStep_added, nextStep_added]
    simp [or_assoc]

variable {e}

theorem step_asking_of_hasStep (hs : e.HasStep s) :
    (e.asking plan approver n k).step s = e.step s := by
  have hne : s ≠ e.nextStep := ne_nextStep hs
  have hne' : s ≠ ⟨e.steps.size + 1⟩ := by
    rintro rfl
    exact Nat.lt_irrefl _ (Nat.lt_of_succ_lt hs)
  unfold asking
  split
  · rw [step_added, if_neg hne]
  · rw [step_added, nextStep_added, if_neg hne', step_added, if_neg hne]

variable (e)

theorem step_asking_question :
    (e.asking plan approver n k).step e.nextStep = plan.question approver n (e.noticeOf plan) := by
  have hne : e.nextStep ≠ ⟨e.steps.size + 1⟩ := fun h =>
    Nat.succ_ne_self _ (congrArg StepId.index h).symm
  unfold asking
  split
  · rw [step_added, if_pos rfl]
  · rw [step_added, nextStep_added, if_neg hne, step_added, if_pos rfl]

variable {e plan}

theorem step_asking_notice (hs : e.noticeOf plan = some s) :
    ∃ key, plan.rejectedKey = some key ∧ (e.asking plan approver n k).step s = plan.notice key k := by
  obtain ⟨⟨key, hkey⟩, rfl⟩ := (noticeOf_eq_some_iff e plan).mp hs
  refine ⟨key, hkey, ?_⟩
  unfold asking
  rw [hkey]
  dsimp only
  rw [step_added, nextStep_added, if_pos rfl]

end Asking

/-! ## The workflow -/

/-- The steps are laid out as the plan says, around the decision `d` and the notice of its denial. -/
structure LaidOut (plan : ApprovalPlan) (approver : Actor) (d : StepId) (notice : Option StepId)
    (e : Engine σ) : Prop where
  asks : ∃ n, (e.step d).outline = (plan.question approver n notice).outline
  tells : ∀ s, notice = some s →
    ∃ key n, plan.rejectedKey = some key ∧ (e.step s).outline = (plan.notice key n).outline
  prepares : ∀ s, plan.preparation = some s → (e.step s).successors = [⟨.complete, some d⟩]
  completes : ∀ s, plan.completion = some s → (e.step s).successors = [⟨.complete, none⟩]

def ApprovalPlan.steps (plan : ApprovalPlan) (d : StepId) (notice : Option StepId) : List StepId :=
  plan.preparation.toList ++ d :: (plan.completion.toList ++ notice.toList)

/-- The workflow `w` has been made of a plan: it has not started, and neither have its steps, of which the
first one is bound to it. -/
structure Draft (plan : ApprovalPlan) (approver : Actor) (w : WorkflowId) (d : StepId)
    (notice : Option StepId) (e : Engine σ) : Prop extends LaidOut plan approver d notice e where
  hasWorkflow : e.HasWorkflow w
  workflow : ∃ context, e.workflow w =
    { key := plan.key, owner := plan.submitter, id := 0, first := plan.preparation.getD d,
      current := plan.preparation.getD d, context }
  bound : e.belongs w (plan.preparation.getD d) = true
  actor : (e.step d).actor = some approver
  noticed : notice.isSome = plan.rejectedKey.isSome
  fresh : ∀ s ∈ plan.steps d notice, e.HasStep s ∧ (e.step s).Fresh
  distinct : (plan.steps d notice).Nodup

def prepared (e : Engine σ) (plan : ApprovalPlan) (d : StepId) : Engine σ :=
  match plan.preparation with
  | some s => e.mapStep s (·.withSuccessor .complete (some d))
  | none => e

theorem connect_ends {d : StepId} (htask : ∀ s, plan.preparation = some s → (e.step s).isTask = true)
    (hsome : plan.preparation = none → plan.completion ≠ none) :
    (connect plan (some d)).Ends e
      (fun first e' => first = plan.preparation.getD d ∧ e' = e.prepared plan d) (fun _ _ => False) := by
  unfold connect prepared
  cases hp : plan.preparation with
  | some s =>
    simp only [setSuccessor, addSuccessor, ends_bind, ends_get, ends_failIf, ends_updateStep, htask s hp]
    exact ⟨rfl, rfl⟩
  | none =>
    cases hc : plan.completion with
    | some c => exact ⟨rfl, rfl⟩
    | none => exact absurd hc (hsome hp)

theorem step_prepared (e : Engine σ) (plan : ApprovalPlan) (d t : StepId) :
    (e.prepared plan d).step t = if plan.preparation = some t ∧ e.HasStep t then
      (e.step t).withSuccessor .complete (some d) else e.step t := by
  unfold prepared
  cases plan.preparation with
  | none => rfl
  | some s =>
    dsimp only
    rw [step_mapStep]
    by_cases hts : t = s
    · subst hts
      simp only [true_and]
    · rw [if_neg fun h => hts h.1, if_neg fun h => hts (Option.some.inj h.1).symm]

theorem hasStep_prepared (e : Engine σ) (plan : ApprovalPlan) (d t : StepId) :
    (e.prepared plan d).HasStep t ↔ e.HasStep t := by
  unfold prepared
  split
  · exact hasStep_mapStep ..
  · exact Iff.rfl

theorem Alike.prepared (h : Alike e' e) (plan : ApprovalPlan) (d : StepId) :
    Alike (e'.prepared plan d) (e.prepared plan d) := by
  unfold Engine.prepared
  split
  · exact h.mapStep _ _
  · exact h

theorem Added.step {e₀ : Engine σ} {wf : Workflow} {w : WorkflowId} (ha : Added e₀ wf w e) (t : StepId) :
    ∃ workflowId context, e.step t = { e₀.step t with workflowId, context } := by
  rw [step_of_steps ha.steps, step_mapStep]
  split
  · exact ⟨_, _, rfl⟩
  · exact ⟨_, _, rfl⟩

def drawn (e : Engine σ) (plan : ApprovalPlan) (approver : Actor) (n k : Nat) : Engine σ :=
  (e.asking plan approver n k).prepared plan e.nextStep

theorem frame_drawn (e : Engine σ) (plan : ApprovalPlan) (approver : Actor) (n k : Nat) :
    (e.drawn plan approver n k).queues = e.queues ∧ (e.drawn plan approver n k).managers = e.managers ∧
      (e.drawn plan approver n k).host = e.host := by
  unfold drawn prepared asking
  split <;> split <;> exact ⟨rfl, rfl, rfl⟩

section Drawn

variable (hfit : plan.Fits e) (approver : Actor) (n k : Nat)
include hfit

theorem ApprovalPlan.Fits.step_drawn_preparation (hs : plan.preparation = some s) :
    ∃ kind key actor, (e.drawn plan approver n k).step s =
      (Step.task kind key actor).withSuccessor .complete (some e.nextStep) := by
  obtain ⟨hstep, kind, key, actor, ht⟩ := hfit.task s (.inl hs)
  refine ⟨kind, key, actor, ?_⟩
  unfold drawn
  rw [step_prepared, if_pos ⟨hs, (hasStep_asking e plan approver n k).mpr (.inl hstep)⟩,
    step_asking_of_hasStep _ _ _ _ hstep, ht]

theorem ApprovalPlan.Fits.step_drawn_completion (hs : plan.completion = some s) :
    ∃ kind key actor, (e.drawn plan approver n k).step s = .task kind key actor := by
  obtain ⟨hstep, kind, key, actor, ht⟩ := hfit.task s (.inr hs)
  refine ⟨kind, key, actor, ?_⟩
  unfold drawn
  rw [step_prepared, if_neg fun h => hfit.distinct s h.1 hs, step_asking_of_hasStep _ _ _ _ hstep, ht]

theorem ApprovalPlan.Fits.step_drawn_question :
    (e.drawn plan approver n k).step e.nextStep = plan.question approver n (e.noticeOf plan) := by
  unfold drawn
  rw [step_prepared, if_neg fun h => ne_nextStep (hfit.task _ (.inl h.1)).1 rfl, step_asking_question]

theorem ApprovalPlan.Fits.step_drawn_notice (hs : e.noticeOf plan = some s) :
    ∃ key, plan.rejectedKey = some key ∧ (e.drawn plan approver n k).step s = plan.notice key k := by
  obtain ⟨key, hkey, hstep⟩ := step_asking_notice approver n k hs
  refine ⟨key, hkey, ?_⟩
  unfold drawn
  rw [step_prepared, if_neg fun h => ?_, hstep]
  -- The preparation was there before the notice.
  obtain ⟨-, rfl⟩ := (noticeOf_eq_some_iff e plan).mp hs
  exact Nat.lt_irrefl _ (Nat.lt_of_succ_lt (hfit.task _ (.inl h.1)).1)

theorem ApprovalPlan.Fits.distinct_steps : (plan.steps e.nextStep (e.noticeOf plan)).Nodup := by
  have hold : ∀ s, plan.preparation = some s ∨ plan.completion = some s →
      s ≠ e.nextStep ∧ e.noticeOf plan ≠ some s := by
    refine fun s hs => ⟨ne_nextStep (hfit.task s hs).1, fun hn => ?_⟩
    obtain ⟨-, rfl⟩ := (noticeOf_eq_some_iff e plan).mp hn
    exact Nat.lt_irrefl _ (Nat.lt_of_succ_lt (hfit.task _ hs).1)
  have hnew : e.noticeOf plan ≠ some e.nextStep := by
    intro hn
    exact Nat.succ_ne_self _ (congrArg StepId.index ((noticeOf_eq_some_iff e plan).mp hn).2).symm
  have hdistinct := hfit.distinct
  unfold ApprovalPlan.steps
  generalize e.noticeOf plan = notice at hold hnew ⊢
  generalize e.nextStep = d at hold hnew ⊢
  cases hp : plan.preparation <;> cases hc : plan.completion <;> cases notice <;>
    simp only [Option.toList, List.nil_append, List.cons_append, List.nodup_cons, List.mem_cons] <;> grind

/-- The steps of the plan are there, and none of them has been touched. -/
theorem ApprovalPlan.Fits.fresh_drawn (hs : s ∈ plan.steps e.nextStep (e.noticeOf plan)) :
    (e.drawn plan approver n k).HasStep s ∧ ((e.drawn plan approver n k).step s).Fresh := by
  have hhas : (e.drawn plan approver n k).HasStep s ↔ _ :=
    (hasStep_prepared _ plan e.nextStep s).trans (hasStep_asking e plan approver n k)
  rw [hhas]
  unfold ApprovalPlan.steps at hs
  simp only [List.mem_append, List.mem_cons, Option.mem_toList] at hs
  rcases hs with hp | rfl | hc | hn
  · obtain ⟨kind, key, actor, hstep⟩ := hfit.step_drawn_preparation approver n k hp
    rw [hstep]
    exact ⟨.inl (hfit.task s (.inl hp)).1, rfl, rfl⟩
  · rw [hfit.step_drawn_question]
    exact ⟨.inr (.inl rfl), rfl, rfl⟩
  · obtain ⟨kind, key, actor, hstep⟩ := hfit.step_drawn_completion approver n k hc
    rw [hstep]
    exact ⟨.inl (hfit.task s (.inr hc)).1, rfl, rfl⟩
  · obtain ⟨key, -, hstep⟩ := hfit.step_drawn_notice approver n k hn
    rw [hstep]
    exact ⟨.inr (.inr hn), rfl, rfl⟩

/-- A workflow of these steps is a draft. -/
theorem ApprovalPlan.Fits.addWorkflow_drafts {e₂ : Engine σ} (h₂ : e₂.Alike (e.drawn plan approver n k)) :
    (addWorkflow plan.key (plan.preparation.getD e.nextStep) plan.submitter 0 []).Ends e₂
      (fun w e' => Draft plan approver w e.nextStep (e.noticeOf plan) e' ∧
        e'.queues = e₂.queues ∧ e'.managers = e₂.managers ∧ e'.host = e₂.host) (fun _ _ => False) := by
  have hstep₂ : ∀ s, e₂.step s = (e.drawn plan approver n k).step s := step_of_core h₂.core
  have hfresh := fun s => hfit.fresh_drawn (s := s) approver n k
  have hfirst : plan.preparation.getD e.nextStep ∈ plan.steps e.nextStep (e.noticeOf plan) := by
    unfold ApprovalPlan.steps
    cases plan.preparation with
    | none => exact List.mem_cons_self
    | some p => exact List.mem_cons_self
  refine ((ends_run _ e₂).and (addWorkflow_ends _ _ _ _ _ e₂)).mono ?_ ?_
  case refine_2 =>
    -- The first step has not started, so it may be bound.
    rintro _ _ ⟨-, hb, -⟩
    rw [hstep₂, (hfresh _ hfirst).2.unstarted] at hb
    contradiction
  rintro w e' ⟨hmade, -, -, wf, hwf, he'⟩
  have ha := added_of_made hmade
  refine ⟨?_, by rw [he']; rfl, by rw [he']; rfl, by rw [he']; rfl⟩
  -- A step that is bound is otherwise the same.
  have hsame : ∀ s st, (e.drawn plan approver n k).step s = st →
      (e'.step s).outline = st.outline ∧ (e'.step s).successors = st.successors ∧
        (e'.step s).actor = st.actor ∧ (st.Fresh → (e'.step s).Fresh) := by
    rintro s _ rfl
    obtain ⟨workflowId, context, hs⟩ := ha.step s
    rw [hs, hstep₂]
    exact ⟨rfl, rfl, rfl, fun hf => ⟨hf.created, hf.unstarted⟩⟩
  have hhas : ∀ s, e'.HasStep s ↔ (e.drawn plan approver n k).HasStep s := fun s =>
    ((hasStep_of_steps ha.steps s).trans (hasStep_mapStep e₂ _ s _)).trans
      (hasStep_of_steps (congrArg Core.steps h₂.core) s)
  have hquestion := hsame _ _ (hfit.step_drawn_question approver n k)
  refine ⟨⟨⟨n, hquestion.1⟩, ?tells, ?prepares, ?completes⟩, ha.hasWorkflow, ⟨_, ha.workflow⟩, ?bound,
    hquestion.2.2.1, Option.isSome_map, fun s hs => ?fresh, hfit.distinct_steps⟩
  case tells =>
    intro s hs
    obtain ⟨key, hkey, hstep⟩ := hfit.step_drawn_notice approver n k hs
    exact ⟨key, k, hkey, (hsame s _ hstep).1⟩
  case prepares =>
    intro s hs
    obtain ⟨kind, key, actor, hstep⟩ := hfit.step_drawn_preparation approver n k hs
    exact (hsame s _ hstep).2.1
  case completes =>
    intro s hs
    obtain ⟨kind, key, actor, hstep⟩ := hfit.step_drawn_completion approver n k hs
    exact (hsame s _ hstep).2.1
  case bound =>
    have hhas₂ : e₂.HasStep (plan.preparation.getD e.nextStep) :=
      (hasStep_of_steps (congrArg Core.steps h₂.core) _).mpr (hfresh _ hfirst).1
    rw [belongs_iff, step_of_steps ha.steps, step_mapStep, if_pos ⟨rfl, hhas₂⟩, ha.workflow]
    rfl
  case fresh =>
    obtain ⟨hs', hf⟩ := hfresh s hs
    exact ⟨(hhas s).mpr hs', (hsame s _ rfl).2.2.2 hf⟩

end Drawn

variable {m : ManagerId}

/-- What has been made of a plan that fits is a draft of it, and the manager is left alone. -/
theorem drafts (hfit : plan.Fits e) (ha : (e.manager m).settings.approver? plan.key = some approver) :
    (addApprovalWorkflow m plan).Ends e
      (fun w e' => Draft plan approver w e.nextStep (e.noticeOf plan) e' ∧
        e'.queues = e.queues ∧ e'.managers = e.managers ∧ e'.host = e.host) (fun _ _ => False) := by
  unfold addApprovalWorkflow
  rw [ends_bind, ends_get]
  dsimp only
  rw [ha]
  dsimp only
  rw [ends_bind, map_eq_pure_bind, ends_bind]
  refine (addApproval_ends plan approver e).mono ?_ fun _ _ => id
  rintro _ e₁ ⟨rfl, n, k, h₁⟩
  have htask : ∀ s, plan.preparation = some s → (e₁.step s).isTask = true := by
    intro s hs
    obtain ⟨hstep, kind, key, actor, ht⟩ := hfit.task s (.inl hs)
    rw [step_of_core h₁.core, step_asking_of_hasStep _ _ _ _ hstep, ht]
    rfl
  rw [ends_pure, ends_bind]
  refine (connect_ends htask hfit.something).mono ?_ fun _ _ => id
  rintro _ _ ⟨rfl, rfl⟩
  rw [ends_bind, ends_note]
  have h₂ : ∀ j c, ((e₁.prepared plan e.nextStep).aside j c).Alike (e.drawn plan approver n k) :=
    fun j c => (alike_aside _ j c).trans (h₁.prepared plan e.nextStep)
  refine (hfit.addWorkflow_drafts approver n k (h₂ _ _)).mono ?_ fun _ _ => id
  rintro w e' ⟨hd, hq, hm, hh⟩
  obtain ⟨hq', hm', hh'⟩ := frame_drawn e plan approver n k
  exact ⟨hd, hq.trans ((congrArg Core.queues (h₂ _ _).core).trans hq'),
    hm.trans ((congrArg Core.managers (h₂ _ _).core).trans hm'), hh.trans ((h₂ _ _).host.trans hh')⟩

/-! ## The graph -/

section Graph

variable {w : WorkflowId} {d : StepId} {notice : Option StepId}

/-- Steps that persist stay laid out. -/
theorem LaidOut.of_persists (hl : LaidOut plan approver d notice e) (hp : Persists e e') :
    LaidOut plan approver d notice e' where
  asks := hl.asks.imp fun _ hn => (hp.steps d).outline.trans hn
  tells s hs := by
    obtain ⟨key, n, hkey, hn⟩ := hl.tells s hs
    exact ⟨key, n, hkey, (hp.steps s).outline.trans hn⟩
  prepares s hs := (Step.successors_of_outline (hp.steps s).outline).trans (hl.prepares s hs)
  completes s hs := (Step.successors_of_outline (hp.steps s).outline).trans (hl.completes s hs)

theorem LaidOut.successors (hl : LaidOut plan approver d notice e) :
    (e.step d).successors = [⟨.approve, plan.completion⟩, ⟨.deny, notice⟩, ⟨.reassign, none⟩] := by
  obtain ⟨n, hn⟩ := hl.asks
  exact Step.successors_of_outline hn

/-- The preparation leads to the decision, and the decision to the completion and to the notice. -/
theorem LaidOut.mem_targets (hl : LaidOut plan approver d notice e) (hs : s ∈ plan.steps d notice)
    (ht : t ∈ e.targets s) :
    plan.preparation = some s ∧ t = d ∨ s = d ∧ (plan.completion = some t ∨ notice = some t) := by
  unfold targets at ht
  unfold ApprovalPlan.steps at hs
  simp only [List.mem_append, List.mem_cons, Option.mem_toList] at hs
  rcases hs with hp | rfl | hc | hn
  · rw [hl.prepares s hp] at ht
    exact .inl ⟨hp, by simpa using ht⟩
  · rw [hl.successors] at ht
    exact .inr ⟨rfl, by simpa using ht⟩
  · rw [hl.completes s hc] at ht
    simp at ht
  · obtain ⟨key, n, -, hout⟩ := hl.tells s hn
    rw [Step.successors_of_outline hout] at ht
    simp [ApprovalPlan.notice, Step.notification, Step.ofDecision, Step.withOutcomes, Step.withSuccessor,
      Successor.register] at ht

/-- The steps of a plan are all different. -/
theorem ApprovalPlan.apart (plan : ApprovalPlan) (hdistinct : (plan.steps d notice).Nodup) :
    (∀ s, plan.preparation = some s → s ≠ d ∧ plan.completion ≠ some s ∧ notice ≠ some s) ∧
      plan.completion ≠ some d ∧ notice ≠ some d ∧ ∀ s, plan.completion = some s → notice ≠ some s := by
  unfold ApprovalPlan.steps at hdistinct
  simp only [List.nodup_append, List.nodup_cons, List.mem_append, List.mem_cons, Option.mem_toList]
    at hdistinct
  grind

def ApprovalPlan.rank (plan : ApprovalPlan) (d s : StepId) : Nat :=
  if plan.preparation = some s then 0 else if s = d then 1 else 2

namespace Draft

variable (hd : Draft plan approver w d notice e)
include hd

theorem first : (e.workflow w).first = plan.preparation.getD d := by
  obtain ⟨context, hw⟩ := hd.workflow
  rw [hw]

theorem inside (hs : e.graph w s) : s ∈ plan.steps d notice := by
  unfold graph at hs
  rw [hd.first] at hs
  refine Leads.mem (fun s hs t ht => ?_) ?_ hs
  · unfold ApprovalPlan.steps
    simp only [List.mem_append, List.mem_cons, Option.mem_toList]
    rcases hd.mem_targets hs ht with ⟨-, rfl⟩ | ⟨-, hc | hn⟩
    · exact .inr (.inl rfl)
    · exact .inr (.inr (.inl hc))
    · exact .inr (.inr (.inr hn))
  · unfold ApprovalPlan.steps
    cases plan.preparation with
    | none => exact List.mem_cons_self
    | some p => exact List.mem_cons_self

/-- The graph leads upwards. -/
theorem ranked (s : StepId) (hs : e.graph w s) (t : StepId) (ht : t ∈ e.targets s) :
    plan.rank d s < plan.rank d t := by
  obtain ⟨hprep, hcomp, hnote, -⟩ := plan.apart hd.distinct
  unfold ApprovalPlan.rank
  rcases hd.mem_targets (hd.inside hs) ht with ⟨hp, rfl⟩ | ⟨rfl, hnext⟩
  · have hne : plan.preparation ≠ some t := fun h => (hprep t h).1 rfl
    rw [if_pos hp, if_neg hne, if_pos rfl]
    exact Nat.zero_lt_one
  · have hne : plan.preparation ≠ some s := fun h => (hprep s h).1 rfl
    have hnt : plan.preparation ≠ some t := fun h =>
      hnext.elim (hprep t h).2.1 (hprep t h).2.2
    have hst : t ≠ s := by
      rintro rfl
      exact hnext.elim hcomp hnote
    rw [if_neg hne, if_pos rfl, if_neg hnt, if_neg hst]
    exact Nat.one_lt_two

/-- To a manager that has nothing to do a draft is a workflow like any other. -/
theorem opening (hdesk : e.HasDesk m) (hidle : e.desk m = ⟨1, [], [], []⟩) : Opening m (· = w) e := by
  obtain ⟨context, hw⟩ := hd.workflow
  refine
    { hasDesk := hdesk
      desk := hidle
      hasWorkflow := ?_
      created := ?_
      observed := ?_
      current := ?_
      bound := ?_
      fresh := ?_
      disjoint := ?_ }
  · rintro _ rfl; exact hd.hasWorkflow
  · rintro _ rfl; rw [hw]
  · rintro _ rfl; exact ⟨[], by rw [hw]; rfl⟩
  · rintro _ rfl; rw [hw]
  · rintro _ rfl; rw [hd.first]; exact hd.bound
  · rintro _ rfl s hs; exact hd.fresh s (hd.inside hs)
  · rintro v _ rfl rfl hne; exact absurd rfl hne

end Draft

end Graph

end Engine

end ApprovalFlow
