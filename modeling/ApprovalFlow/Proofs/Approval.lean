import ApprovalFlow.Proofs.AnswerProgress
import ApprovalFlow.Proofs.ApprovalGraph

/-!
# No completion without approval

The walk of a workflow that has been made of a plan comes to the completion only from the decision, which has
to have completed with approval, and to the decision only from the preparation (`ByPlan.approved`,
`ByPlan.prepared`). Since hooks of steps are called only for the step that the walk has come to, the
completion is neither started nor executed without approval.
-/

namespace ApprovalFlow

open Act

variable {σ γ : Type}

structure Step.Done (st : Step) (o : Outcome) : Prop where
  completed : st.isCompleted = true
  outcome : st.outcome.same o = true

namespace Engine

variable {h : Hooks σ γ} {plan : ApprovalPlan} {approver : Actor} {w : WorkflowId} {d s t : StepId}
  {notice : Option StepId} {own : StepId → Prop} {seen : σ → List StepId} {m : ManagerId}
  {base e e' : Engine σ}

/-! ## On the walk of a plan -/

/-- Each step of a chain but its head comes after one that it is related to. -/
private theorem exists_of_isChain {α : Type} {R : α → α → Prop} {l : List α} {a b : α} (hl : l.IsChain R)
    (hhead : l.head? = some a) (hb : b ∈ l) (hne : b ≠ a) : ∃ c ∈ l, R c b := by
  induction l generalizing a with
  | nil => cases hb
  | cons x l ih =>
    have hx : x = a := Option.some.inj hhead
    subst hx
    rcases List.mem_cons.mp hb with rfl | hb
    · exact absurd rfl hne
    cases l with
    | nil => cases hb
    | cons y l =>
      obtain ⟨hxy, hl⟩ := List.isChain_cons_cons.mp hl
      by_cases hby : b = y
      · exact ⟨x, List.mem_cons_self, hby ▸ hxy⟩
      · obtain ⟨c, hc, hcb⟩ := ih hl rfl hb hby
        exact ⟨c, List.mem_cons_of_mem x hc, hcb⟩

theorem Walks.exists_followed (hk : Walks seen own w e) (ht : t ∈ (e.workflow w).walk)
    (hne : t ≠ (e.workflow w).first) : ∃ s ∈ (e.workflow w).walk, Followed e s t :=
  exists_of_isChain hk.chain hk.begins ht hne

/-- The workflow `w` of a plan is under way: its steps are those of the plan, and it is on its walk. -/
structure ByPlan (plan : ApprovalPlan) (approver : Actor) (own : StepId → Prop) (w : WorkflowId)
    (d : StepId) (notice : Option StepId) (e : Engine σ) : Prop
    extends LaidOut plan approver d notice e where
  walking : Walking (fun _ => []) own w e
  first : (e.workflow w).first = plan.preparation.getD d
  steps : ∀ s, own s ↔ s ∈ plan.steps d notice
  distinct : (plan.steps d notice).Nodup

def ApprovalPlan.Prepared (plan : ApprovalPlan) (steps : StepId → Step) : Prop :=
  ∀ s, plan.preparation = some s → (steps s).Done .complete

/-- The decision `d` of the plan has been approved: it has the plan's facts, and was decided when the
preparation had completed. -/
structure ApprovalPlan.Approved (plan : ApprovalPlan) (d : StepId) (steps : StepId → Step) : Prop where
  approved : (steps d).Done .approve
  facts : (steps d).facts = plan.facts
  prepared : plan.Prepared steps

theorem LaidOut.facts (hl : LaidOut plan approver d notice e) : (e.step d).facts = plan.facts := by
  obtain ⟨n, hn⟩ := hl.asks
  exact Step.facts_of_outline hn

theorem LaidOut.isDecision (hl : LaidOut plan approver d notice e) : (e.step d).isDecision = true := by
  obtain ⟨n, hn⟩ := hl.asks
  exact Step.isDecision_of_outline hn

namespace ByPlan

variable (hu : ByPlan plan approver own w d notice e)
include hu

theorem of_sound (hs : Sound e own w e') : ByPlan plan approver own w d notice e' where
  toLaidOut := hu.of_persists hs.persists
  walking := hs.walking
  first := (hs.persists.first w).trans hu.first
  steps := hu.steps
  distinct := hu.distinct

/-- What is before a step on the walk. -/
theorem predecessor (ht : t ∈ (e.workflow w).walk) (hne : t ≠ plan.preparation.getD d) :
    ∃ s ∈ (e.workflow w).walk, Followed e s t ∧
      (plan.preparation = some s ∧ t = d ∨ s = d ∧ (plan.completion = some t ∨ notice = some t)) := by
  obtain ⟨s, hs, hf⟩ := hu.walking.exists_followed ht (hu.first ▸ hne)
  exact ⟨s, hs, hf, hu.mem_targets ((hu.steps s).mp (hu.walking.inside s hs)) (mem_targets_of_next? hf.2)⟩

/-- The walk comes to the decision only after the preparation. -/
theorem prepared (ht : d ∈ (e.workflow w).walk) : plan.Prepared e.step := by
  intro p hp
  obtain ⟨hprep, hcomp, hnote, -⟩ := plan.apart hu.distinct
  have hne : d ≠ plan.preparation.getD d := by
    rw [hp]
    exact (hprep p hp).1.symm
  obtain ⟨s, -, hf, hs⟩ := hu.predecessor ht hne
  rcases hs with ⟨hs, -⟩ | ⟨-, hs⟩
  · obtain rfl : p = s := Option.some.inj (hp.symm.trans hs)
    refine ⟨hf.1, ?_⟩
    have hnext := hf.2
    unfold Step.next? at hnext
    rw [hu.prepares p hp, Successor.find?] at hnext
    split at hnext
    · rename_i hsame
      rw [Outcome.same_iff] at hsame ⊢
      exact hsame.symm
    · contradiction
  · exact absurd hs (not_or_intro hcomp hnote)

/-- The walk comes to the completion only after the decision has been approved. -/
theorem approved (hc : plan.completion = some t) (ht : t ∈ (e.workflow w).walk) :
    plan.Approved d e.step := by
  obtain ⟨hprep, hcomp, -, hnote⟩ := plan.apart hu.distinct
  have hne : t ≠ plan.preparation.getD d := by
    cases hp : plan.preparation with
    | none => exact fun h => hcomp (hc.trans (congrArg some h))
    | some p => exact fun h => (hprep p hp).2.1 (hc.trans (congrArg some h))
  obtain ⟨s, hmem, hf, ⟨-, rfl⟩ | ⟨rfl, -⟩⟩ := hu.predecessor ht hne
  · exact absurd hc hcomp
  have hdone : (e.step s).Done .approve := by
    refine ⟨hf.1, ?_⟩
    have hnext := hf.2
    unfold Step.next? at hnext
    simp only [hu.successors, Successor.find?] at hnext
    split at hnext
    · rename_i hsame
      rw [Outcome.same_iff] at hsame ⊢
      exact hsame.symm
    split at hnext
    · exact absurd hnext (hnote t hc)
    split at hnext <;> contradiction
  exact ⟨hdone, hu.facts, hu.prepared hmem⟩

/-- What has been touched is on the walk. -/
theorem mem_walk (ht : t ∈ plan.steps d notice) (hf : ¬(e.step t).Fresh) : t ∈ (e.workflow w).walk := by
  by_contra h
  exact hf (hu.walking.outside t ((hu.steps t).mpr ht) h).1

omit hu in
theorem mem_steps_completion (hc : plan.completion = some t) : t ∈ plan.steps d notice := by
  unfold ApprovalPlan.steps
  rw [hc]
  exact List.mem_append_right _ (List.mem_cons_of_mem d List.mem_cons_self)

end ByPlan

/-! ## Along a run -/

/-- The call is one that may be made: for the completion after the decision has been approved, and for the
decision after the preparation has completed. -/
structure Warranted (plan : ApprovalPlan) (d : StepId) (c : Call) : Prop where
  completion : plan.completion = some c.step → plan.Approved d c.found
  decision : c.step = d → plan.Prepared c.found

theorem ByPlan.warranted (hu : ByPlan plan approver own w d notice base) {c : Call}
    (hc : OnWalk base own w c) : Warranted plan d c := by
  obtain ⟨e, hs, rfl⟩ := hc
  have hu' := hu.of_sound hs
  refine ⟨fun hcomp => hu'.approved hcomp (Workflow.current_mem_walk _), fun hcur => hu'.prepared ?_⟩
  rw [← hcur]
  exact Workflow.current_mem_walk _

/-- Where the decision has completed otherwise, the walk never comes to the completion. -/
theorem ByPlan.refused (hu : ByPlan plan approver own w d notice base) (hs : Sound base own w e)
    (hdone : (base.step d).isCompleted = true) (hout : (base.step d).outcome.same .approve = false)
    (hc : plan.completion = some t) : t ∉ (e.workflow w).walk := by
  intro ht
  have ha := ((hu.of_sound hs).approved hc ht).approved.outcome
  rw [((hs.persists.steps d).final hdone).2, hout] at ha
  contradiction

/-! ## Denial -/

/-- Denial is up to `actor`, and nothing raises that is called on the way to the notice. -/
structure Deniable (h : Hooks σ γ) (m : ManagerId) (d : StepId) (notice : Option StepId)
    (actor : Option Actor) (context : γ) (e : Engine σ) : Prop
    extends Answerable m d .deny actor e where
  silent : h.Silent
  shows : ∀ n, notice = some n → h.Shows n context

/-- The plan has been denied: the workflow waits for the submitter to take notice, or is completed if there
is no notice. -/
structure Denied (plan : ApprovalPlan) (w : WorkflowId) (d : StepId) (notice : Option StepId)
    (r : WorkflowState) (e : Engine σ) : Prop where
  denied : (e.step d).Done .deny
  state : (e.workflow w).state = r
  told : ∀ n, notice = some n → r = .waiting ∧ (e.workflow w).current = n ∧
    (e.step n).isNotification = true ∧ (e.step n).isCompleted = false ∧
    (e.step n).actor = plan.submitter ∧ plan.rejectedKey = some (e.step n).key
  done : notice = none → r = .completed

section Denial

variable {calls : σ → List Call} (hr : h.Reports calls) {rank : StepId → Nat}
  {owns : WorkflowId → StepId → Prop}

theorem LaidOut.next?_deny (hl : LaidOut plan approver d notice e) : (e.step d).next? .deny = notice := by
  unfold Step.next?
  rw [hl.successors]
  rfl

theorem LaidOut.noticed (hl : LaidOut plan approver d notice e) (hn : notice = some s) :
    (e.step s).isDecision = true ∧ (e.step s).isNotification = true ∧
      (e.step s).actor = plan.submitter ∧ plan.rejectedKey = some (e.step s).key := by
  obtain ⟨key, n, hkey, hout⟩ := hl.tells s hn
  refine ⟨Step.isDecision_of_outline hout, Step.isNotification_of_outline hout,
    Step.actor_of_outline hout rfl, ?_⟩
  rw [Step.key_of_outline hout]
  exact hkey

/-- After the denial the workflow is driven to the notice, or to its end. -/
theorem ends_denied (hq : h.Quiet) (hs : Sound base own w e) (hh : Heard m w e)
    (hl : LaidOut plan approver d notice e) (hst : (e.workflow w).state = .waiting)
    (hcur : (e.workflow w).current = d) (hc : (e.step d).isCompleted = true)
    (ho : (e.step d).outcome = .deny) (hrank : ∀ s, own s → ∀ t ∈ base.targets s, rank s < rank t)
    (hnotice : ∀ n, notice = some n → own n) (hsub : plan.submitter.isSome = true) (context : γ) :
    (advance h w context).Ends e (Denied plan w d notice)
      (fun _ _ => ¬(h.Silent ∧ ∀ n, notice = some n → h.Shows n context)) := by
  subst hcur
  have hab : (e.step (e.workflow w).current).outcome.same .abort = false := by rw [ho]; rfl
  have hnext : (e.step (e.workflow w).current).next? (e.step (e.workflow w).current).outcome = notice := by
    rw [ho]
    exact hl.next?_deny
  have hpersists : (advance h w context).Always Persists :=
    governs_persists.sustains.advance (heed_persists hq w)
  have hdone : ∀ {e'}, Persists e e' → (e'.step (e.workflow w).current).Done .deny := by
    intro e' hp
    obtain ⟨hc', ho'⟩ := (hp.steps _).final hc
    exact ⟨hc', by rw [ho', ho]; rfl⟩
  cases hn : notice with
  | none =>
    refine ((hh.advance_completes hq hst hc hab (hnext.trans hn)).and (hpersists.ends e)).mono ?_
      fun _ _ hx hp => hx.1 hp.1
    rintro r e' ⟨⟨rfl, hst'⟩, hp⟩
    exact ⟨hdone hp, hst', nofun, fun _ => rfl⟩
  | some n =>
    rw [hn] at hnext hnotice
    obtain ⟨hd, -, hactor, -⟩ := hl.noticed hn
    have hhas := hs.walking.hasStep n (hnotice n rfl)
    refine ((hh.advance_waits hq hst hc hab hnext hhas (hs.ahead hrank hnext).1 hd
      (by rw [hactor]; exact hsub)).and (hpersists.ends e)).mono ?_
        fun _ _ hx hp => hx.1 ⟨hp.1, hp.2 n rfl⟩
    rintro r e' ⟨⟨rfl, hst', hcur', hopen⟩, hp⟩
    refine ⟨hdone hp, hst', fun s hs => ?_, nofun⟩
    obtain rfl := Option.some.inj hs
    obtain ⟨-, hnote, hactor', hkey⟩ := (hl.of_persists hp).noticed hn
    exact ⟨rfl, hcur', hnote, hopen, hactor', hkey⟩

include hr in
theorem OnCourse.ends_deny (ho : OnCourse base m owns w e) (hl : LaidOut plan approver d notice e)
    (hrank : ∀ s, owns w s → ∀ t ∈ base.targets s, rank s < rank t)
    (hnotice : ∀ n, notice = some n → owns w n) (hsub : plan.submitter.isSome = true)
    (actor : Option Actor) (context : γ) :
    (decide h m d .deny actor context).Ends e (Denied plan w d notice)
      (fun _ _ => ¬Deniable h m d notice actor context e) := by
  unfold Engine.decide
  simp only [ends_bind, ends_get]
  cases hrun : running? e m ((e.step d).workflowId.getD 0) with
  | none =>
    -- A queued decision is one of a workflow that is registered.
    have hn : ¬Deniable h m d notice actor context e := by
      intro hd
      obtain ⟨-, v, -, hv, -, hb⟩ := ho.queued d hd.queued
      rw [belongs_iff.mp hb, Option.getD_some, hv] at hrun
      contradiction
    dsimp only
    rw [ends_bind]
    exact (numberOf_ends hl.isDecision).mono (fun _ _ _ => hn) fun _ _ => False.elim
  | some v =>
    obtain ⟨rfl, hman, -⟩ := ho.registered _ v hrun
    dsimp only
    rw [ends_bind]
    refine (((ho.steered_decideQueued hr).and (decideQueued_ends hr.quiet ho.hasDesk .deny actor)).and
      (decideQueued_answers hr.quiet ho.hasDesk hl.isDecision .deny actor)).mono ?_ fun _ _ hx hd =>
        hx.2 ⟨hd.toAnswerable, hd.silent⟩
    rintro _ e₁ ⟨⟨⟨hst, hready⟩, hs, ha⟩, hopen, t, hself⟩
    -- The workflow waited for the answer, and has been left where it is.
    have hwf : e₁.workflow v = e.workflow v := workflow_of_workflows ha.workflows v
    obtain ⟨hcur, hwait⟩ : (e.workflow v).current = d ∧ (e.workflow v).state = .waiting :=
      (ho.awaits d hs).resolve_left (by rw [hopen]; exact Bool.false_ne_true)
    have hman₁ : (e₁.workflow v).Managed m := by rw [hwf]; exact hman
    have hh : Heard m v e₁ :=
      ⟨hready.member.hasWorkflow, hman₁, hready.hasDesk,
        hready.registered hman₁ (by rw [hwf, hwait]; rfl), hready.decisions⟩
    refine (ends_denied hr.quiet hst.sound hh (hl.of_persists ha.persists) (by rw [hwf]; exact hwait)
      (by rw [hwf]; exact hcur) (by rw [hself]; exact Step.isCompleted_given rfl t)
      (by rw [hself]; exact Step.outcome_given ..) hrank hnotice hsub context).mono (fun _ _ h => h)
        fun _ _ hx hd => hx ⟨hd.silent, hd.shows⟩

end Denial

/-! ## From the plan on -/

theorem LaidOut.mem_targets_decision (hl : LaidOut plan approver d notice e) :
    t ∈ e.targets d ↔ plan.completion = some t ∨ notice = some t := by
  unfold targets
  rw [hl.successors]
  simp

namespace Draft

variable (hd : Draft plan approver w d notice e)
include hd

theorem mem_graph_iff : e.graph w s ↔ s ∈ plan.steps d notice := by
  refine ⟨hd.inside, fun hs => ?_⟩
  have hfirst : e.graph w (plan.preparation.getD d) := hd.first ▸ .refl
  have hdecision : e.graph w d := by
    cases hp : plan.preparation with
    | none =>
      rw [hp] at hfirst
      exact hfirst
    | some p =>
      rw [hp, Option.getD_some] at hfirst
      refine hfirst.tail ?_
      unfold targets
      rw [hd.prepares p hp]
      exact List.mem_singleton_self d
  unfold ApprovalPlan.steps at hs
  simp only [List.mem_append, List.mem_cons, Option.mem_toList] at hs
  rcases hs with hp | rfl | hc | hn
  · rw [hp] at hfirst
    exact hfirst
  · exact hdecision
  · exact hdecision.tail (hd.mem_targets_decision.mpr (.inl hc))
  · exact hdecision.tail (hd.mem_targets_decision.mpr (.inr hn))

theorem byPlan : ByPlan plan approver (e.graph w) w d notice e := by
  obtain ⟨context, hw⟩ := hd.workflow
  refine ⟨hd.toLaidOut, walking_of_beginning hd.hasWorkflow ?_ ?_ ?_ ?_ ?_ (fun s hs t ht => hs.tail ht)
    (fun s hs => (hd.fresh s (hd.inside hs)).1) (fun s hs _ => ⟨(hd.fresh s (hd.inside hs)).2, nofun⟩),
    hd.first, fun s => hd.mem_graph_iff, hd.distinct⟩
  · rw [hw]
  · rw [hw]
  · rw [hw]
  · rw [hw]
  · exact .refl

theorem onCourse (hdesk : e.HasDesk m) (hidle : e.desk m = ⟨1, [], [], []⟩) : OnCourse e m e.graph w e where
  toOrderly := (hd.opening hdesk hidle).orderly
  sound := ⟨hd.byPlan.walking, refl e⟩
  awaits s hs := by
    rw [hidle] at hs
    contradiction

end Draft

theorem OnCourse.rebase {owns : WorkflowId → StepId → Prop} (ho : OnCourse base m owns w e) :
    OnCourse e m owns w e := ⟨ho.toOrderly, ⟨ho.sound.walking, refl e⟩, ho.awaits⟩

/-- The completion of the plan, from `e` to `e'` and from there on, depends on the decision `d`. -/
structure Guarded (h : Hooks σ γ) (calls : σ → List Call) (plan : ApprovalPlan) (m : ManagerId)
    (w : WorkflowId) (d : StepId) (notice : Option StepId) (e e' : Engine σ) : Prop where
  warranted : CallsOnly calls (Warranted plan d) e e'
  completion : ∀ s, plan.completion = some s → ¬(e'.step s).Fresh → plan.Approved d e'.step
  answered : ∀ op : Operation σ γ, Manages m (· = w) e' op → (e'.step d).isCompleted = false →
    ((next h e' op).step d).isCompleted = true → plan.Prepared e'.step
  refused : (e'.step d).isCompleted = true → (e'.step d).outcome.same .approve = false →
    ∀ s, plan.completion = some s → ∀ ops, Along h (Manages m (· = w)) e' ops →
      ((runs h e' ops).step s).Fresh ∧ CallsOnly calls (·.step ≠ s) e' (runs h e' ops)
  denied : ∀ actor context, (decide h m d .deny actor context).Ends e' (Denied plan w d notice)
    (fun _ _ => ¬Deniable h m d notice actor context e')

section Guarding

variable {calls : σ → List Call} (hr : h.Reports calls) {owns : WorkflowId → StepId → Prop}

/-- What completes the decision finds the workflow on it, and the preparation completed. -/
theorem OnCourse.prepared_of_answered (hq : h.Quiet) (ho : OnCourse base m owns w e)
    (hu : ByPlan plan approver (owns w) w d notice e) {op : Operation σ γ}
    (hop : Manages m (· = w) e op) (hopen : (e.step d).isCompleted = false)
    (hdone : ((Engine.next h e op).step d).isCompleted = true) : plan.Prepared e.step := by
  have hcur : (e.workflow w).current = d → plan.Prepared e.step := by
    rintro rfl
    exact hu.prepared (Workflow.current_mem_walk _)
  have hqueued : d ∈ (e.desk m).queue → plan.Prepared e.step := fun hs =>
    (ho.awaits d hs).elim (fun hc => by rw [hopen] at hc; contradiction) fun hc => hcur hc.1
  have hroutine : op.Routine := by
    cases op <;> trivial
  have hentitled : Entitled e d op := by
    by_contra hn
    have hkept := (next_defers hq e hroutine d).completed hn hu.isDecision
    rw [hkept, hopen] at hdone
    contradiction
  cases op with
  | abort v => exact hcur (hop ▸ hentitled)
  | decide n s o actor context =>
    obtain rfl : n = m := hop
    exact hqueued hentitled.2.1
  | decideQueued q s o actor =>
    obtain rfl : q = (e.manager m).queue := hop
    exact hqueued hentitled.2.1
  | _ => exact hentitled.elim

include hr in
/-- Along a run of a workflow that has been made of a plan, the completion depends on the decision. -/
theorem Draft.guarded {e₀ : Engine σ} (hd : Draft plan approver w d notice e₀) (hdesk : e₀.HasDesk m)
    (hidle : e₀.desk m = ⟨1, [], [], []⟩) (hsub : plan.submitter.isSome = true)
    {ops : List (Operation σ γ)} (hops : Along h (Manages m (· = w)) e₀ ops) :
    Guarded h calls plan m w d notice e₀ (runs h e₀ ops) := by
  have hstart := hd.onCourse hdesk hidle
  obtain ⟨ho, hcalls⟩ := hstart.along hr hd.ranked hops
  have hu := hd.byPlan.of_sound ho.sound
  generalize runs h e₀ ops = e at ho hcalls hu
  -- The ranks lead upwards wherever the steps have persisted.
  have hrank : ∀ s, e₀.graph w s → ∀ t ∈ e.targets s, plan.rank d s < plan.rank d t := fun s hs t ht =>
    hd.ranked s hs t (ho.sound.persists.targets s ▸ ht)
  refine ⟨hcalls.mono fun c => hd.byPlan.warranted, fun s hs hf => ?_, fun op hop => ?_,
    fun hc hout s hs more hmore => ?_, fun actor context => ?_⟩
  · exact hu.approved hs (hu.mem_walk (ByPlan.mem_steps_completion hs) hf)
  · exact ho.prepared_of_answered hr.quiet hu hop
  · obtain ⟨ho', hcalls'⟩ := ho.rebase.along hr hrank hmore
    have hout' : s ∉ ((runs h e more).workflow w).walk := hu.refused ho'.sound hc hout hs
    refine ⟨?_, hcalls'.mono fun c hon => ?_⟩
    · by_contra hf
      exact hout' ((hu.of_sound ho'.sound).mem_walk (ByPlan.mem_steps_completion hs) hf)
    · obtain ⟨e', hs', rfl⟩ := hon
      rintro rfl
      exact hu.refused hs' hc hout hs (Workflow.current_mem_walk _)
  · refine ho.ends_deny hr hu.toLaidOut (fun s hs t ht => hd.ranked s hs t ht)
      (fun n hn => hd.mem_graph_iff.mpr ?_) hsub actor context
    unfold ApprovalPlan.steps
    rw [hn]
    simp

end Guarding

/-- A plan that fits, for a workflow key that has an approver, makes a workflow that asks the approver and
tells the facts, and along every run of it the completion depends on the answer. -/
theorem completion_awaits_approval {calls : σ → List Call} (hr : h.Reports calls) (hdesk : e.HasDesk m)
    (hidle : e.desk m = ⟨1, [], [], []⟩)
    (happrover : (e.manager m).settings.approver? plan.key = some approver)
    (hsubmitter : plan.submitter.isSome = true) (hfit : plan.Fits e) :
    ∃ w d notice e₀, (addApprovalWorkflow m plan).run e = (.ok w, e₀) ∧
      (e₀.step d).actor = some approver ∧ (e₀.step d).facts = plan.facts ∧
      (e₀.step d).key = plan.decisionKey ∧ notice.isSome = plan.rejectedKey.isSome ∧
      ∀ ops : List (Operation σ γ), Along h (Manages m (· = w)) e₀ ops →
        Guarded h calls plan m w d notice e₀ (runs h e₀ ops) := by
  obtain ⟨w, e₀, hmade, hd, hqueues, hmanagers, -⟩ := (drafts hfit happrover).exists_ok
  have hidle₀ : e₀.desk m = ⟨1, [], [], []⟩ := by
    rw [← hidle]
    unfold Engine.desk Engine.queue
    rw [manager_of_managers hmanagers, hqueues]
  obtain ⟨n, hquestion⟩ := hd.asks
  exact ⟨w, e.nextStep, e.noticeOf plan, e₀, hmade, hd.actor, hd.facts, Step.key_of_outline hquestion,
    hd.noticed, fun ops hops => hd.guarded hr (hdesk.same hmanagers hqueues) hidle₀ hsubmitter hops⟩

/-! ## A journey -/

def reportingHooks : Hooks (List Call) Unit where
  starting s := modify fun e => { e with host := e.host ++ [e.call s] }
  execute s _ := do
    modify fun e => { e with host := e.host ++ [e.call s] }
    return .complete
  present s _ := modify fun e => { e with host := e.host ++ [e.call s] }
  observe _ _ := pure ()
  room := 0

theorem reports_reportingHooks : reportingHooks.Reports id where
  quiet := ⟨fun _ _ => rfl, fun _ _ _ => rfl, fun _ _ _ => rfl, fun _ _ _ => rfl⟩
  starting _ _ := rfl
  execute _ _ _ := rfl
  present _ _ _ := rfl
  observe _ _ _ := rfl

def travelOffice : Engine (List Call) :=
  ((do
    let _ ← addManager ⟨"INFO", [("journey", "maria")]⟩
    let _ ← addTask "Task" "plan" none
    addTask "Task" "book" none : Act (List Call) StepId).run { clock := .counter 1 1, host := [] }).2

def journey : ApprovalPlan where
  submitter := some ⟨"sam"⟩
  key := "journey"
  preparation := some ⟨0⟩
  decisionKey := "journey.approval"
  facts := [⟨"to", .text "Oslo"⟩]
  completion := some ⟨1⟩
  rejectedKey := some "journey.rejected"

theorem fits_journey : journey.Fits travelOffice where
  task s hs := by
    rcases hs with hs | hs <;> obtain rfl := Option.some.inj hs
    · exact ⟨by decide, "Task", "plan", none, rfl⟩
    · exact ⟨by decide, "Task", "book", none, rfl⟩
  distinct s hs hc := by
    obtain rfl := Option.some.inj hs
    exact absurd (Option.some.inj hc) (by decide)
  something := nofun

/-- A journey that maria denies waits for sam to take notice. -/
example :
    let e := runs reportingHooks ((addApprovalWorkflow ⟨0⟩ journey).run travelOffice).2
      [.start ⟨0⟩ ⟨0⟩ (), .decide ⟨0⟩ ⟨2⟩ .deny (some ⟨"maria"⟩) ()]
    (e.workflow ⟨0⟩).state = .waiting ∧ (e.step (e.workflow ⟨0⟩).current).actor = some ⟨"sam"⟩ ∧
      (e.step ⟨1⟩).isStarted = false := by decide +kernel

theorem journey_awaits_approval :
    travelOffice.HasDesk ⟨0⟩ ∧ travelOffice.desk ⟨0⟩ = ⟨1, [], [], []⟩ ∧
      (travelOffice.manager ⟨0⟩).settings.approver? "journey" = some ⟨"maria"⟩ ∧
      journey.submitter.isSome = true ∧ journey.Fits travelOffice ∧
      ∃ w d notice e₀, (addApprovalWorkflow ⟨0⟩ journey).run travelOffice = (.ok w, e₀) ∧
        (e₀.step d).actor = some ⟨"maria"⟩ ∧ (e₀.step d).facts = journey.facts ∧
        (e₀.step d).key = "journey.approval" ∧ notice.isSome = true ∧
        ∀ ops : List (Operation (List Call) Unit), Along reportingHooks (Manages ⟨0⟩ (· = w)) e₀ ops →
          Guarded reportingHooks id journey ⟨0⟩ w d notice e₀ (runs reportingHooks e₀ ops) := by
  have hdesk : travelOffice.HasDesk ⟨0⟩ := ⟨by decide, by decide⟩
  have hidle : travelOffice.desk ⟨0⟩ = ⟨1, [], [], []⟩ := by decide
  have happrover : (travelOffice.manager ⟨0⟩).settings.approver? "journey" = some ⟨"maria"⟩ := by decide
  exact ⟨hdesk, hidle, happrover, rfl, fits_journey,
    completion_awaits_approval reports_reportingHooks hdesk hidle happrover rfl fits_journey⟩

end Engine

end ApprovalFlow
