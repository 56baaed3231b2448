import ApprovalFlow.Proofs.ApprovalGraph
import ApprovalFlow.Proofs.Registration
import ApprovalFlow.Proofs.OperationTrails

/-!
# Steps show what has been registered

A run is charted to find out which registrations are made for which step, by the caller or by hooks, several
levels deep: a step that is made registers its first outcomes itself, an approval workflow some more. Nothing
else that can be done with an engine touches successors (`governs_draws`). So at any time each step shows the
registrations that the chart has of it, in their order, whatever was done in between (`charted_throughout`).
-/

namespace ApprovalFlow

abbrev Chart := List (StepId × Successor)

def Chart.of (chart : Chart) (s : StepId) : List Successor :=
  chart.filterMap fun (t, r) => if t = s then some r else none

/-- A host that is charted: the registrations so far, and what has been seen of the engine, each sight with
the registrations up to then. -/
structure Charted (σ : Type) where
  inner : σ
  chart : Chart := []
  sights : List (Engine Chart) := []

namespace Chart

variable {s t : StepId}

theorem of_append (chart chart' : Chart) (s : StepId) : of (chart ++ chart') s = of chart s ++ of chart' s :=
  List.filterMap_append

theorem of_pair (regs : List Successor) (s t : StepId) :
    of (regs.map (s, ·)) t = if s = t then regs else [] := by
  unfold of
  rw [List.filterMap_map]
  split
  · rename_i hst
    simp only [Function.comp_def, if_pos hst, List.filterMap_some]
  · rename_i hst
    simp only [Function.comp_def, if_neg hst, List.filterMap_none]

theorem of_single (s : StepId) (r : Successor) (t : StepId) : of [(s, r)] t = if s = t then [r] else [] :=
  of_pair [r] s t

end Chart

theorem Hooks.Obeys.heed {σ γ : Type} {R : Engine σ → Engine σ → Prop} [IsPreorder (Engine σ) R]
    {h : Hooks σ γ} (hh : h.Obeys R) (hg : Engine.Governs R) (w : WorkflowId) : h.Heed R w where
  starting := hh.starting
  execute := hh.execute
  present := hh.present
  emit kind _ := hg.emit hh.observe kind

namespace Charted

open Act Engine

variable {σ γ α : Type}

/-! ## Charting a run -/

def sight (e : Engine (Charted σ)) : Engine Chart := { e with host := e.host.chart }

def takeSight : Act (Charted σ) Unit := do
  let e ← get
  updateHost fun d => { d with sights := d.sights ++ [sight e] }

/-- Performs an action and charts what it registers, which `f` tells of the engine in which it begins. -/
def charting (f : Engine (Charted σ) → Chart) (m : Act (Charted σ) α) : Act (Charted σ) α := do
  let e ← get
  updateHost fun d => { d with chart := d.chart ++ f e }
  m

def making (outcomes : List Outcome) (e : Engine σ) : Chart := (Step.endings outcomes).map (e.nextStep, ·)

/-- What is registered by telling what follows an outcome of a step: nothing, unless the step is there. -/
def linking (s : StepId) (o : Outcome) (target : Option StepId) (e : Engine σ) : Chart :=
  if e.HasStep s then [(s, ⟨o, target⟩)] else []

def continuing (s : StepId) (target : Option StepId) (e : Engine σ) : Chart :=
  if (e.step s).isTask then [(s, ⟨.complete, target⟩)] else []

def asked (plan : ApprovalPlan) (e : Engine σ) : Chart :=
  making (Step.choices [.approve, .deny] true) e ++ (e.nextStep, ⟨.approve, plan.completion⟩) ::
    match e.noticeOf plan with
    | some n => [(n, ⟨.acknowledge, none⟩), (e.nextStep, ⟨.deny, some n⟩)]
    | none => []

def connected (plan : ApprovalPlan) (decision? : Option StepId) (e : Engine σ) : Chart :=
  match plan.preparation with
  | some s => continuing s (decision?.or plan.completion) e
  | none => []

def planned (m : ManagerId) (plan : ApprovalPlan) (e : Engine σ) : Chart :=
  match (e.manager m).settings.approver? plan.key with
  | some _ => asked plan e ++ connected plan (some e.nextStep) e
  | none => connected plan none e

/-! ## What registers what -/

/-- The steps have come to register what is new on the chart, and nothing else. -/
structure Draws (new : Chart) (e e' : Engine (Charted σ)) : Prop where
  successors : ∀ s, (e'.step s).successors = Successor.registerAll (new.of s) (e.step s).successors
  chart : e'.host.chart = e.host.chart
  sights : e'.host.sights = e.host.sights

/-- The steps show what is on the chart, and did whenever they were looked at. -/
structure Faithful (e : Engine (Charted σ)) : Prop where
  steps : ∀ s, (e.step s).successors = Successor.registerAll (e.host.chart.of s) []
  sights : ∀ e' ∈ e.host.sights, ∀ s, (e'.step s).successors = Successor.registerAll (e'.host.of s) []

def Keeps (e e' : Engine (Charted σ)) : Prop := Faithful e → Faithful e'

variable {new new' : Chart} {e e' e'' : Engine (Charted σ)} {h : Hooks (Charted σ) γ} {w : WorkflowId}
  {s t : StepId} {m : ManagerId} {plan : ApprovalPlan}

theorem Draws.trans (h : Draws new e e') (h' : Draws new' e' e'') : Draws (new ++ new') e e'' where
  successors s := by
    rw [h'.successors, h.successors, Chart.of_append, Successor.registerAll_append]
  chart := h'.chart.trans h.chart
  sights := h'.sights.trans h.sights

instance : IsPreorder (Engine (Charted σ)) (Draws []) where
  refl _ := ⟨fun _ => rfl, rfl, rfl⟩
  trans _ _ _ := Draws.trans

instance : IsPreorder (Engine (Charted σ)) Keeps where
  refl _ := id
  trans _ _ _ h h' := h' ∘ h

theorem draws_of_successors (hs : ∀ s, (e'.step s).successors = (e.step s).successors)
    (hh : e'.host = e.host) : Draws [] e e' := ⟨hs, by rw [hh], by rw [hh]⟩

theorem draws_of_steps (hs : e'.steps = e.steps) (hh : e'.host = e.host) : Draws [] e e' :=
  draws_of_successors (fun s => by rw [step_of_steps hs]) hh

/-- To change a step otherwise registers nothing. -/
theorem draws_mapStep {f : Step → Step} (hf : (f (e.step s)).successors = (e.step s).successors) :
    Draws [] e (e.mapStep s f) :=
  draws_of_successors (step_mapStep_eq hf) rfl

/-- Nothing that is done by way of workflows and managers registers anything, but for hooks. -/
theorem governs_draws : Governs (Draws (σ := σ) []) where
  off hs _ _ hh _ := draws_of_steps hs hh
  work _ _ _ hf := draws_mapStep (Step.successors_of_frame hf.frame)
  workflow _ _ _ _ := draws_of_steps rfl rfl
  bind _ _ _ _ := draws_mapStep rfl
  reassign _ _ _ _ := draws_mapStep rfl

theorem Draws.keeps (h : Draws [] e e') : Keeps e e' := by
  intro hf
  constructor
  · intro s
    rw [h.successors, h.chart]
    exact hf.steps s
  · rw [h.sights]
    exact hf.sights

theorem governs_keeps : Governs (Keeps (σ := σ)) where
  off hs hw hc hh hk := (governs_draws.off hs hw hc hh hk).keeps
  work s f e hf := (governs_draws.work s f e hf).keeps
  workflow w f e hf := (governs_draws.workflow w f e hf).keeps
  bind s id c e := (governs_draws.bind s id c e).keeps
  reassign s actor e hr := (governs_draws.reassign s actor e hr).keeps

theorem bindStep_draws (id : Int) (c : ContextId) : (bindStep s id c : Act (Charted σ) Unit).Always (Draws []) :=
  always_get.bind fun _ => (always_failIf _ _).bind fun _ => always_modify fun _ => draws_mapStep rfl

theorem addWorkflow_draws (key : String) (first : StepId) (owner : Option Actor) (id : Int) (values : Context) :
    (addWorkflow key first owner id values : Act (Charted σ) WorkflowId).Always (Draws []) :=
  always_get.bind fun _ => (bindStep_draws id _).bind fun _ => always_modifyGet fun _ => draws_of_steps rfl rfl

theorem assignId_draws (id : Int) : (assignId w id : Act (Charted σ) Unit).Always (Draws []) := by
  have hrenamed : (updateWorkflow w ({ · with id }) : Act (Charted σ) Unit).Always (Draws []) :=
    governs_draws.updateWorkflow _ fun _ => rfl
  exact always_get.bind fun _ => (always_failIf _ _).bind fun _ => hrenamed.bind fun _ => bindStep_draws id _

theorem takeSight_keeps : (takeSight : Act (Charted σ) Unit).Always Keeps := by
  intro e hf
  refine ⟨hf.steps, fun e' he' => ?_⟩
  rcases List.mem_append.mp he' with he' | he'
  · exact hf.sights e' he'
  · rw [List.mem_singleton.mp he']
    exact hf.steps

/-- A chart stays faithful if it gets what an action registers. -/
theorem charting_keeps {f : Engine (Charted σ) → Chart} {m : Act (Charted σ) α}
    (hf : ∀ (e : Engine (Charted σ)) d, f { e with host := d } = f e)
    (hm : ∀ e, m.Ends e (fun _ => Draws (f e) e) (fun _ => Draws (f e) e)) : (charting f m).Always Keeps := by
  intro e hfaith
  refine Ends.state (P := Faithful) ?_
  unfold charting
  rw [ends_bind, ends_get, ends_bind]
  obtain ⟨d, hd⟩ : ∃ d, d = { e.host with chart := e.host.chart ++ f e } := ⟨_, rfl⟩
  show m.Ends { e with host := { e.host with chart := e.host.chart ++ f e } } _ _
  rw [← hd]
  have hdraws : ∀ e', Draws (f { e with host := d }) { e with host := d } e' → Faithful e' := by
    intro e' h
    constructor
    · intro s
      rw [h.chart, h.successors, hf, hd, Chart.of_append, Successor.registerAll_append]
      exact congrArg _ (hfaith.steps s)
    · rw [h.sights, hd]
      exact hfaith.sights
  exact (hm { e with host := d }).mono (fun _ => hdraws) fun _ => hdraws

/-- What a new step registers as it is made. -/
theorem draws_added {st : Step} {outcomes : List Outcome}
    (hst : st.successors = Successor.registerAll (Step.endings outcomes) []) :
    Draws (making outcomes e) e (e.added st) := by
  refine ⟨fun s => ?_, rfl, rfl⟩
  rw [step_added, making, Chart.of_pair]
  by_cases hs : s = e.nextStep
  · have hnew : e.step e.nextStep = default := step_of_not_hasStep (Nat.lt_irrefl _)
    rw [if_pos hs, if_pos hs.symm, hst, hs, hnew]
    rfl
  · rw [if_neg hs, if_neg (Ne.symm hs)]
    rfl

/-- A new decision is numbered besides. -/
theorem draws_counted_added {st : Step} {outcomes : List Outcome}
    (hst : st.successors = Successor.registerAll (Step.endings outcomes) []) :
    Draws (making outcomes e) e (e.counted.added st) := by
  have hcounted : Draws [] e e.counted := draws_of_steps rfl rfl
  exact hcounted.trans (draws_added (e := e.counted) hst)

theorem draws_withSuccessor (o : Outcome) (target : Option StepId) :
    Draws (linking s o target e) e (e.mapStep s (·.withSuccessor o target)) := by
  refine ⟨fun t => ?_, rfl, rfl⟩
  unfold linking
  rw [step_mapStep]
  by_cases hs : e.HasStep s
  · rw [if_pos hs, Chart.of_single]
    by_cases hts : t = s
    · subst hts
      rw [if_pos ⟨rfl, hs⟩, if_pos rfl]
      rfl
    · rw [if_neg fun h => hts h.1, if_neg (Ne.symm hts)]
      rfl
  · rw [if_neg hs, if_neg fun h : t = s ∧ e.HasStep s => hs h.2]
    rfl

theorem setSuccessor_draws (s : StepId) (target : Option StepId) (e : Engine (Charted σ)) :
    (setSuccessor s target).Ends e (fun _ => Draws (continuing s target e) e)
      (fun _ => Draws (continuing s target e) e) := by
  simp only [setSuccessor, addSuccessor, ends_bind, ends_get, ends_failIf, ends_updateStep, continuing]
  cases htask : (e.step s).isTask
  case false => exact refl (r := Draws []) e
  case true =>
    -- A task is there.
    have hs : e.HasStep s := by
      by_contra hs
      rw [step_of_not_hasStep hs] at htask
      contradiction
    have h := draws_withSuccessor (e := e) (s := s) .complete target
    unfold linking at h
    rwa [if_pos hs] at h

theorem connect_draws (plan : ApprovalPlan) (decision? : Option StepId) (e : Engine (Charted σ)) :
    (connect plan decision?).Ends e (fun _ => Draws (connected plan decision? e) e)
      (fun _ => Draws (connected plan decision? e) e) := by
  unfold connect connected
  cases plan.preparation with
  | some s =>
    dsimp only
    rw [ends_bind]
    exact setSuccessor_draws s _ e
  | none =>
    cases plan.completion with
    | some c => exact refl e
    | none => exact refl e

/-! ## Approval workflows -/

/-- The decision of a plan is no task, and neither is the notice. -/
theorem isTask_asking (plan : ApprovalPlan) (approver : Actor) (n k : Nat) (e : Engine σ) (s : StepId) :
    ((e.asking plan approver n k).step s).isTask = (e.step s).isTask := by
  by_cases hs : e.HasStep s
  · rw [step_asking_of_hasStep _ _ _ _ hs]
  rw [step_of_not_hasStep hs]
  by_cases hs' : (e.asking plan approver n k).HasStep s
  · rcases ((hasStep_asking e plan approver n k).mp hs').resolve_left hs with rfl | hn
    · rw [step_asking_question]
      rfl
    · obtain ⟨key, -, hst⟩ := step_asking_notice approver n k hn
      rw [hst]
      rfl
  · rw [step_of_not_hasStep hs']

theorem of_asked (plan : ApprovalPlan) (e : Engine σ) (s : StepId) :
    Chart.of (asked plan e) s =
      if s = e.nextStep then Step.endings (Step.choices [.approve, .deny] true) ++
        ⟨.approve, plan.completion⟩ :: (e.noticeOf plan).toList.map fun n => ⟨.deny, some n⟩
      else if e.noticeOf plan = some s then Step.endings [.acknowledge]
      else [] := by
  have hn : e.noticeOf plan ≠ some e.nextStep := by
    intro hn
    exact Nat.succ_ne_self _ (congrArg StepId.index ((noticeOf_eq_some_iff e plan).mp hn).2).symm
  rw [asked, Chart.of_append, making, Chart.of_pair]
  by_cases hs : s = e.nextStep
  · subst hs
    rw [if_pos rfl, if_pos rfl]
    refine congrArg _ ?_
    cases hnotice : e.noticeOf plan with
    | none => simp [Chart.of]
    | some n =>
      rw [hnotice] at hn
      have hne : n ≠ e.nextStep := fun h => hn (congrArg some h)
      simp [Chart.of, hne]
  · have hs' : e.nextStep ≠ s := Ne.symm hs
    rw [if_neg hs, if_neg hs']
    cases e.noticeOf plan with
    | none => simp [Chart.of, hs']
    | some n =>
      by_cases hns : n = s
      · simp [Chart.of, hs', hns, Step.endings]
      · simp [Chart.of, hs', hns]

theorem draws_asking (plan : ApprovalPlan) (approver : Actor) (n k : Nat) (e : Engine (Charted σ)) :
    Draws (asked plan e) e (e.asking plan approver n k) := by
  have hhost : (e.asking plan approver n k).host = e.host := by
    unfold Engine.asking
    split <;> rfl
  refine ⟨fun s => ?_, by rw [hhost], by rw [hhost]⟩
  have hblank : ∀ t, ¬e.HasStep t → (e.step t).successors = [] := fun t ht => by
    rw [step_of_not_hasStep ht]
    rfl
  rw [of_asked]
  by_cases hs : e.HasStep s
  · have hnotice : e.noticeOf plan ≠ some s := by
      intro hn
      obtain ⟨-, rfl⟩ := (noticeOf_eq_some_iff e plan).mp hn
      exact Nat.lt_irrefl _ (Nat.lt_of_succ_lt hs)
    rw [step_asking_of_hasStep _ _ _ _ hs, if_neg (ne_nextStep hs), if_neg hnotice]
    rfl
  rw [hblank s hs]
  by_cases hd : s = e.nextStep
  · rw [if_pos hd, hd, step_asking_question]
    cases e.noticeOf plan <;> rfl
  rw [if_neg hd]
  by_cases hnotice : e.noticeOf plan = some s
  · obtain ⟨key, -, hst⟩ := step_asking_notice approver n k hnotice
    rw [if_pos hnotice, hst]
    rfl
  · have hs' : ¬(e.asking plan approver n k).HasStep s := fun h =>
      ((hasStep_asking e plan approver n k).mp h).elim hs fun h => h.elim hd hnotice
    rw [if_neg hnotice, step_of_not_hasStep hs']
    rfl

theorem addApprovalWorkflow_draws (m : ManagerId) (plan : ApprovalPlan) (e : Engine (Charted σ)) :
    (addApprovalWorkflow m plan).Ends e (fun _ => Draws (planned m plan e) e)
      (fun _ => Draws (planned m plan e) e) := by
  have hmade : ∀ (first : StepId) (extras : Entries String Value),
      (note builderLogger .debug "Built approval workflow" extras >>= fun _ =>
        addWorkflow plan.key first plan.submitter 0 [] : Act (Charted σ) WorkflowId).Always (Draws []) :=
    fun first _ => governs_draws.note.bind fun _ => addWorkflow_draws _ _ _ _ _
  -- Once the decision is there, if any, the rest is to connect the steps and to make the workflow.
  have hrest : ∀ (new : Chart) (decision? : Option StepId) (extras : Entries String Value)
      (e₁ : Engine (Charted σ)), Draws new e e₁ →
      (connect plan decision? >>= fun first => note builderLogger .debug "Built approval workflow" extras >>=
        fun _ => addWorkflow plan.key first plan.submitter 0 []).Ends e₁
          (fun _ => Draws (new ++ connected plan decision? e₁) e)
          (fun _ => Draws (new ++ connected plan decision? e₁) e) := by
    intro new decision? extras e₁ h₁
    rw [ends_bind]
    refine (connect_draws plan decision? e₁).mono (fun first e₂ h₂ => ?_) fun _ _ h₂ => h₁.trans h₂
    have h₂ := h₁.trans h₂
    refine ((hmade first extras).ends e₂).mono (fun _ _ h₃ => ?_) fun _ _ h₃ => ?_
    all_goals
      have h := h₂.trans h₃
      rwa [List.append_nil] at h
  unfold addApprovalWorkflow planned
  rw [ends_bind, ends_get]
  dsimp only
  cases (e.manager m).settings.approver? plan.key with
  | none => exact hrest [] none _ e (refl e)
  | some approver =>
    dsimp only
    rw [ends_bind]
    show Ends (addApproval plan approver >>= fun d => pure (some d)) e _ _
    rw [ends_bind]
    refine (addApproval_ends plan approver e).mono ?_ fun _ _ => False.elim
    rintro d e₁ ⟨rfl, n, k, he₁⟩
    have h₁ : Draws (asked plan e) e e₁ := by
      have h := (draws_asking plan approver n k e).trans
        (draws_of_steps (congrArg Core.steps he₁.core) he₁.host)
      rwa [List.append_nil] at h
    -- The preparation is a task now if it was one before.
    have hconnected : connected plan (some e.nextStep) e₁ = connected plan (some e.nextStep) e := by
      unfold connected continuing
      simp only [step_of_core he₁.core, isTask_asking]
    rw [← hconnected]
    exact hrest _ (some e.nextStep) _ e₁ h₁

/-! ## Programs -/

/-- Programs, which may call the engine with the hooks `below`. What they register is charted. -/
inductive Program (below : Hooks (Charted σ) γ → Prop) : {α : Type} → Act (Charted σ) α → Prop
  | apart {α : Type} {m : Act (Charted σ) α} (h : m.Always (Draws [])) : Program below m
  | sight : Program below takeSight
  | addPlain (kind key : String) (actor : Option Actor) : Program below (addStep { kind, key, actor })
  | addTask (kind key : String) (actor : Option Actor) :
      Program below (charting (making [.complete]) (addTask kind key actor))
  | addDecision (kind key : String) (actor : Option Actor) (outcomes : List Outcome) (reassignable : Bool) :
      Program below (charting (making (Step.choices outcomes reassignable))
        (addDecision kind key actor outcomes reassignable))
  | addSimpleDecision (kind key : String) (actor : Option Actor) (reassignable : Bool) :
      Program below (charting (making (Step.choices [.approve, .deny] reassignable))
        (addSimpleDecision kind key actor reassignable))
  | addNotification (kind key : String) (actor : Option Actor) :
      Program below (charting (making [.acknowledge]) (addNotification kind key actor))
  | addSuccessor (s : StepId) (o : Outcome) (target : Option StepId) :
      Program below (charting (linking s o target) (addSuccessor s o target))
  | setSuccessor (s : StepId) (target : Option StepId) :
      Program below (charting (continuing s target) (setSuccessor s target))
  | addApprovalWorkflow (m : ManagerId) (plan : ApprovalPlan) :
      Program below (charting (planned m plan) (addApprovalWorkflow m plan))
  | addFact (s : StepId) (f : Fact) : Program below (addFact s f)
  | addError (s : StepId) (message : String) : Program below (addError s message)
  | bindStep (s : StepId) (id : Int) (c : ContextId) : Program below (bindStep s id c)
  | start (h : Hooks (Charted σ) γ) (s : StepId) (hb : below h) : Program below (start h s)
  | execute (h : Hooks (Charted σ) γ) (s : StepId) (context : γ) (hb : below h) :
      Program below (execute h s context)
  | setOutcome (s : StepId) (o : Outcome) : Program below (setOutcome s o)
  | resolve (s : StepId) (o : Outcome) : Program below (resolve s o)
  | acknowledge (s : StepId) : Program below (acknowledge s)
  | reassign (s : StepId) (actor : Option Actor) : Program below (reassign s actor)
  | enqueue (h : Hooks (Charted σ) γ) (q : QueueId) (s : StepId) (hb : below h) :
      Program below (enqueue h q s)
  | dequeue (h : Hooks (Charted σ) γ) (q : QueueId) (s : StepId) (hb : below h) :
      Program below (dequeue h q s)
  | decideQueued (h : Hooks (Charted σ) γ) (q : QueueId) (s : StepId) (o : Outcome) (actor : Option Actor)
      (hb : below h) : Program below (decideQueued h q s o actor)
  | reassignQueued (h : Hooks (Charted σ) γ) (q : QueueId) (s : StepId) (actor : Option Actor)
      (hb : below h) : Program below (reassignQueued h q s actor)
  | addWorkflow (key : String) (first : StepId) (owner : Option Actor) (id : Int) (values : Context) :
      Program below (addWorkflow key first owner id values)
  | assignId (w : WorkflowId) (id : Int) : Program below (assignId w id)
  | listenTo (w : WorkflowId) (l : Listener) : Program below (listenTo w l)
  | advance (h : Hooks (Charted σ) γ) (w : WorkflowId) (context : γ) (hb : below h) :
      Program below (advance h w context)
  | abort (h : Hooks (Charted σ) γ) (w : WorkflowId) (hb : below h) : Program below (abort h w)
  | startManaged (h : Hooks (Charted σ) γ) (m : ManagerId) (w : WorkflowId) (context : γ) (hb : below h) :
      Program below (startManaged h m w context)
  | decide (h : Hooks (Charted σ) γ) (m : ManagerId) (s : StepId) (o : Outcome) (actor : Option Actor)
      (context : γ) (hb : below h) : Program below (decide h m s o actor context)
  | bind {α β : Type} {m : Act (Charted σ) α} {f : α → Act (Charted σ) β} (hm : Program below m)
      (hf : ∀ a, Program below (f a)) : Program below (m >>= f)
  | tryCatch {α : Type} {m : Act (Charted σ) α} {handle : Failure → Act (Charted σ) α}
      (hm : Program below m) (hf : ∀ x, Program below (handle x)) : Program below (tryCatch m handle)

/-- Hooks and listeners that may call the engine again, a finite number of levels deep. -/
inductive Reenters : Hooks (Charted σ) γ → Prop
  | intro (h : Hooks (Charted σ) γ) (below : Hooks (Charted σ) γ → Prop)
      (nested : ∀ h', below h' → Reenters h')
      (starting : ∀ s, Program below (h.starting s))
      (execute : ∀ s context, Program below (h.execute s context))
      (present : ∀ s context, Program below (h.present s context))
      (observe : ∀ l event, Program below (h.observe l event)) : Reenters h

theorem addDecision_keeps (kind key : String) (actor : Option Actor) (outcomes : List Outcome)
    (reassignable : Bool) :
    (charting (making (Step.choices outcomes reassignable))
      (addDecision kind key actor outcomes reassignable) : Act (Charted σ) StepId).Always Keeps := by
  refine charting_keeps (fun _ _ => rfl) fun e => (ends_addDecision ..).mpr ?_
  exact draws_counted_added (Step.successors_ofDecision ..)

theorem addNotification_keeps (kind key : String) (actor : Option Actor) :
    (charting (making [.acknowledge]) (addNotification kind key actor) : Act (Charted σ) StepId).Always
      Keeps := by
  refine charting_keeps (fun _ _ => rfl) fun e => (ends_addNotification ..).mpr ?_
  exact draws_counted_added (Step.successors_notification ..)

/-- A plain step registers nothing as it is made. -/
theorem addPlain_keeps (kind key : String) (actor : Option Actor) :
    (addStep { kind, key, actor } : Act (Charted σ) StepId).Always Keeps :=
  always_modifyGet fun e => (draws_added rfl : Draws (making [] e) e (e.added { kind, key, actor })).keeps

/-- Programs keep the chart faithful if the hooks that they call do. -/
theorem Program.keeps {below : Hooks (Charted σ) γ → Prop} {m : Act (Charted σ) α}
    (hb : ∀ h, below h → h.Obeys Keeps) (hm : Program below m) : m.Always Keeps := by
  have always_keeps : ∀ {α : Type} {m : Act (Charted σ) α}, m.Always (Draws []) → m.Always Keeps :=
    fun hm => hm.mono Draws.keeps
  -- By how the program is composed: what draws is charted, and what runs hooks rests on those below.
  induction hm with
  | apart h => exact always_keeps h
  | sight => exact takeSight_keeps
  | addPlain kind key actor => exact addPlain_keeps kind key actor
  | addTask kind key actor =>
    exact charting_keeps (fun _ _ => rfl) fun e => draws_added (Step.successors_task ..)
  | addDecision kind key actor outcomes reassignable => exact addDecision_keeps _ _ _ _ _
  | addSimpleDecision kind key actor reassignable => exact addDecision_keeps _ _ _ _ _
  | addNotification kind key actor => exact addNotification_keeps _ _ _
  | addSuccessor s o target =>
    exact charting_keeps (fun _ _ => rfl) fun e => draws_withSuccessor o target
  | setSuccessor s target => exact charting_keeps (fun _ _ => rfl) (setSuccessor_draws s target)
  | addApprovalWorkflow m plan => exact charting_keeps (fun _ _ => rfl) (addApprovalWorkflow_draws m plan)
  | addFact s f =>
    exact always_keeps (always_get.bind fun _ => (always_failIf _ _).bind fun _ =>
      always_modify fun _ => draws_mapStep rfl)
  | addError s message => exact always_keeps (always_modify fun _ => draws_mapStep rfl)
  | bindStep s id c => exact always_keeps (bindStep_draws id c)
  | start h s hbelow => exact governs_keeps.start ((hb h hbelow).starting s)
  | execute h s context hbelow =>
    exact governs_keeps.execute ((hb h hbelow).execute s context) ((hb h hbelow).present s context)
  | setOutcome s o => exact governs_keeps.setOutcome o
  | resolve s o => exact governs_keeps.resolve o
  | acknowledge s =>
    exact always_get.bind fun _ => (always_failIf _ _).bind fun _ => governs_keeps.resolve _
  | reassign s actor => exact governs_keeps.reassignStep
  | enqueue h q s hbelow =>
    exact always_enqueue (fun l event _ => (hb h hbelow).observe l event) governs_keeps.apart q s
  | dequeue h q s hbelow => exact governs_keeps.dequeue (hb h hbelow).observe
  | decideQueued h q s o actor hbelow => exact governs_keeps.decideQueued (hb h hbelow).observe
  | reassignQueued h q s actor hbelow => exact governs_keeps.reassignQueued (hb h hbelow).observe
  | addWorkflow key first owner id values => exact always_keeps (addWorkflow_draws _ _ _ _ _)
  | assignId w id => exact always_keeps (assignId_draws id)
  | listenTo w l => exact governs_keeps.updateWorkflow _ fun _ => rfl
  | advance h w context hbelow => exact governs_keeps.travels.advance ((hb h hbelow).heed governs_keeps w)
  | abort h w hbelow => exact governs_keeps.abort (hb h hbelow).observe
  | startManaged h m w context hbelow =>
    exact governs_keeps.startManaged ((hb h hbelow).heed governs_keeps w)
  | decide h m s o actor context hbelow =>
    exact governs_keeps.decide (fun _ _ => governs_keeps.dequeue (hb h hbelow).observe)
      ((hb h hbelow).heed governs_keeps)
  | bind _ _ ihm ihf => exact ihm.bind ihf
  | tryCatch _ _ ihm ihf => exact ihm.tryCatch ihf

theorem Reenters.obeys (hh : Reenters h) : h.Obeys Keeps := by
  induction hh with
  | intro h below nested starting execute present observe ih =>
    exact ⟨fun s => (starting s).keeps ih, fun s context => (execute s context).keeps ih,
      fun s context => (present s context).keeps ih, fun l event => (observe l event).keeps ih⟩

structure Uncharted (e : Engine (Charted σ)) : Prop where
  steps : e.steps = #[]
  chart : e.host.chart = []
  sights : e.host.sights = []

theorem Uncharted.faithful (hu : Uncharted e) : Faithful e := by
  constructor
  · intro s
    have hs : ¬e.HasStep s := by
      unfold HasStep
      rw [hu.steps]
      exact Nat.not_lt_zero _
    rw [step_of_not_hasStep hs, hu.chart]
    rfl
  · rw [hu.sights]
    exact fun _ he' => absurd he' List.not_mem_nil

/-- Whatever is done, by programs and by the hooks that they call, every step shows the registrations that
have been made for it: in the end, and whenever the engine has been looked at on the way. -/
theorem charted_throughout {m : Act (Charted σ) α}
    (hm : Program (Reenters : Hooks (Charted σ) γ → Prop) m) (hu : Uncharted e) :
    (∀ s, ((m.run e).2.step s).Shows ((m.run e).2.host.chart.of s)) ∧
      ∀ e' ∈ (m.run e).2.host.sights, ∀ s, (e'.step s).Shows (e'.host.of s) := by
  have hf : Faithful (m.run e).2 := hm.keeps (fun _ hh => hh.obeys) e hu.faithful
  exact ⟨fun s => Step.shows_of_registered (hf.steps s), fun e' he' s =>
    Step.shows_of_registered (hf.sights e' he' s)⟩

/-! ## A review that is rewired -/

/-- A second thought: it has the key of approval, but is not the same otherwise. -/
def assent : Outcome := { Outcome.approve with messageKey := "outcome.assent", ok := false }

/-- Hooks that take a look and register a second thought for the review, and only then fail. -/
def rewiringHooks : Hooks (Charted Unit) Unit where
  starting _ := pure ()
  execute _ _ := do
    takeSight
    charting (linking ⟨1⟩ assent (some ⟨3⟩)) (addSuccessor ⟨1⟩ assent (some ⟨3⟩))
    throw (.raised .business "late")
  present _ _ := takeSight
  observe _ _ := takeSight
  room := 0

/-- A review is to be approved or held; what follows approval is registered three more times. -/
def rewiring : Act (Charted Unit) Unit := do
  let s ← charting (making [.complete]) (addTask "Task" "write" none)
  let d ← charting (making (Step.choices [.approve, .hold, assent] true))
    (addDecision "Decision" "review" none [.approve, .hold, assent] true)
  let n ← charting (making [.acknowledge]) (addNotification "SimpleNotification" "reject" none)
  let t ← charting (making [.complete]) (addTask "Task" "publish" none)
  charting (continuing s (some d)) (setSuccessor s (some d))
  charting (linking d .deny (some n)) (addSuccessor d .deny (some n))
  charting (linking d .approve (some s)) (addSuccessor d .approve (some s))
  tryCatch (charting (continuing d (some t)) (setSuccessor d (some t))) fun _ => pure ()
  let w ← addWorkflow "article" s none 1 []
  tryCatch (do let _ ← advance rewiringHooks w ()) fun _ => pure ()

def blank : Engine (Charted Unit) where
  clock := .counter 1 1
  host := { inner := () }

theorem reenters_rewiringHooks : Reenters rewiringHooks := by
  refine .intro _ (fun _ => False) (fun _ => False.elim) (fun _ => .apart (always_pure ())) (fun _ _ => ?_)
    (fun _ _ => .sight) fun _ _ => .sight
  exact .bind .sight fun _ => .bind (.addSuccessor _ _ _) fun _ => .apart (always_throw _)

theorem program_rewiring : Program (Reenters : Hooks (Charted Unit) Unit → Prop) rewiring := by
  refine .bind (.addTask ..) fun s => .bind (.addDecision ..) fun d => .bind (.addNotification ..) fun n =>
    .bind (.addTask ..) fun t => .bind (.setSuccessor ..) fun _ => .bind (.addSuccessor ..) fun _ =>
      .bind (.addSuccessor ..) fun _ => .bind (.tryCatch (.setSuccessor ..) fun _ => .apart (always_pure ()))
        fun _ => .bind (.addWorkflow ..) fun w => .tryCatch ?_ fun _ => .apart (always_pure ())
  exact .bind (.advance rewiringHooks w () reenters_rewiringHooks) fun _ => .apart (always_pure ())

theorem uncharted_blank : Uncharted blank := ⟨rfl, rfl, rfl⟩

/-- The review offers approval as it was first given, at the first place; what follows it is what was
registered last, with a second thought, from within a hook. -/
theorem rewiring_shown :
    (∀ s, ((rewiring.run blank).2.step s).Shows ((rewiring.run blank).2.host.chart.of s)) ∧
      (∀ e' ∈ (rewiring.run blank).2.host.sights, ∀ s, (e'.step s).Shows (e'.host.of s)) ∧
      (rewiring.run blank).2.host.chart.of ⟨1⟩ = [⟨.approve, none⟩, ⟨.hold, none⟩, ⟨assent, none⟩,
        ⟨.reassign, none⟩, ⟨.deny, some ⟨2⟩⟩, ⟨.approve, some ⟨0⟩⟩, ⟨assent, some ⟨3⟩⟩] ∧
      ((rewiring.run blank).2.step ⟨1⟩).available = [.approve, .hold, .reassign, .deny] ∧
      ((rewiring.run blank).2.step ⟨1⟩).next? .approve = some ⟨3⟩ ∧
      (rewiring.run blank).2.host.sights.map (fun e' => (e'.step ⟨1⟩).next? .approve) = [some ⟨0⟩] := by
  obtain ⟨hend, hsights⟩ := charted_throughout program_rewiring uncharted_blank
  exact ⟨hend, hsights, by decide +kernel, by decide +kernel, by decide +kernel, by decide +kernel⟩

end Charted

end ApprovalFlow
