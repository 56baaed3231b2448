import ApprovalFlow.Engine.Graph
import ApprovalFlow.Proofs.Work

/-!
# Rules for driving a workflow

With quiet hooks a turn works on the current step and then does one of a few things, which `TurnEnds`
lists: what holds of all of them holds of the turn (`turn_ends`). What each turn leads back to holds of the
traversal (`process_ends`), and from that come the rules for `advance` and `abort`.
-/

namespace ApprovalFlow

def Workflow.left (wf : Workflow) (s : StepId) : Workflow := { wf with history := wf.history ++ [s] }

def Workflow.moved (wf : Workflow) (s t : StepId) : Workflow :=
  { wf with previous := some s, current := t }

def Workflow.resumed (wf : Workflow) (t : Instant) : Workflow :=
  { wf with state := .running, startTime := t }

def Workflow.ended (wf : Workflow) (state : WorkflowState) (t : Instant) : Workflow :=
  { wf with state, endTime := t }

/-- The workflow aborted at a time: its current step is left behind if it was not already. -/
def Workflow.aborted (wf : Workflow) (t : Instant) : Workflow :=
  if wf.history.getLast? != some wf.current then (wf.left wf.current).ended .aborted t
  else wf.ended .aborted t

def Workflow.renamed (wf : Workflow) (id : Int) : Workflow := { wf with id }

theorem Workflow.state_aborted (wf : Workflow) (t : Instant) : (wf.aborted t).state = .aborted := by
  unfold aborted
  split <;> rfl

theorem Workflow.current_aborted (wf : Workflow) (t : Instant) :
    (wf.aborted t).current = wf.current := by
  unfold aborted
  split <;> rfl

theorem Workflow.id_aborted (wf : Workflow) (t : Instant) : (wf.aborted t).id = wf.id := by
  unfold aborted
  split <;> rfl

theorem Workflow.context_aborted (wf : Workflow) (t : Instant) : (wf.aborted t).context = wf.context := by
  unfold aborted
  split <;> rfl

theorem Workflow.listeners_aborted (wf : Workflow) (t : Instant) :
    (wf.aborted t).listeners = wf.listeners := by
  unfold aborted
  split <;> rfl

def Step.boundTo (st : Step) (wf : Workflow) : Step :=
  { st with workflowId := some wf.id, context := some wf.context }

/-- A completed step after which the workflow ends: in which state, and with which event. -/
inductive Step.Closes (st : Step) : WorkflowState → EventKind → Prop
  | abort : st.outcome.same .abort = true → Closes st .aborted (.aborted st.outcome.key)
  | complete : st.outcome.same .abort = false → st.next? st.outcome = none →
      Closes st .completed (.completed st.outcome.key)

namespace Engine

open Act

variable {σ γ : Type} {h : Hooks σ γ} {seen : σ → List StepId} {w : WorkflowId} {s : StepId}
  {e e' : Engine σ} {F : Failure → Engine σ → Prop}

theorem ends_moveWorkflow {Q : Unit → Engine σ → Prop} (next : WorkflowState)
    (ha : (e.workflow w).state.allows next = true)
    (hq : ∀ e', e'.Alike (e.mapWorkflow w ({ · with state := next })) → e'.clock = e.clock → Q () e') :
    (moveWorkflow w next).Ends e Q F := by
  simp only [moveWorkflow, ends_bind, ends_get, ends_failIf, ends_updateWorkflow, ends_note, ha]
  exact hq _ (alike_aside _ _ _) rfl

theorem allowed_mapWorkflow {f : Workflow → Workflow} {next : WorkflowState}
    (hf : (f (e.workflow w)).state = (e.workflow w).state)
    (ha : (e.workflow w).state.allows next = true) :
    ((e.mapWorkflow w f).workflow w).state.allows next = true := by
  rw [workflow_mapWorkflow]
  split
  · rw [hf]; exact ha
  · exact ha

/-- A workflow that may end ends, at the time that the clock reads, and its listeners are told. -/
theorem ends_finish {Q : Unit → Engine σ → Prop} (next : WorkflowState) (kind : EventKind)
    (ha : (e.workflow w).state.allows next = true)
    (hq : ∀ e', e'.Alike (e.mapWorkflow w (·.ended next e.clock.now)) → e.clock.GoesOn e'.clock →
      (emit h w kind).Ends e' Q F) :
    (finish h w next kind).Ends e Q F := by
  unfold finish
  rw [ends_bind]
  refine ends_moveWorkflow next ha fun e₁ h₁ hk => ?_
  rw [ends_bind, ends_readClock, ends_bind, ends_updateWorkflow, hk]
  refine hq _ (((alike_aside _ _ _).mapWorkflow _ _).trans ?_) (Clock.goesOn_tick _)
  have h₂ := h₁.mapWorkflow w ({ · with endTime := e.clock.now })
  rwa [mapWorkflow_mapWorkflow] at h₂

/-! ## Turns -/

theorem mem_targets_of_next? {s t : StepId} {o : Outcome} (h : (e.step s).next? o = some t) :
    t ∈ e.targets s := by
  unfold targets
  unfold Step.next? at h
  obtain ⟨x, hx, hxt⟩ := Option.bind_eq_some_iff.mp h
  refine List.mem_filterMap.mpr ⟨x, ?_, hxt⟩
  -- The look-up takes the first entry with the key, which is an entry of the list.
  generalize (e.step s).successors = l at hx
  induction l with
  | nil => cases hx
  | cons y l ih =>
    rw [Successor.find?] at hx
    split at hx
    · rw [Option.some.inj hx]; exact List.mem_cons_self
    · exact List.mem_cons_of_mem y (ih hx)

/-- What follows a step depends on its successors alone. -/
theorem targets_of_successors (h : (e'.step s).successors = (e.step s).successors) :
    e'.targets s = e.targets s := by
  unfold targets
  rw [h]

theorem Worked.targets (h : Worked seen s e e') (t : StepId) : e'.targets t = e.targets t :=
  targets_of_successors (Step.successors_of_frame (h.frame t))

theorem targets_of_not_hasStep (hs : ¬ e.HasStep s) : e.targets s = [] := by
  unfold targets
  rw [step_of_not_hasStep hs]
  rfl

section GoingOn

variable {t : StepId} (he : e'.Alike ((e.mapStep t (·.boundTo (e.workflow w))).mapWorkflow w
  fun wf => (wf.left s).moved s t))
include he

theorem workflow_of_follows (hw : e.HasWorkflow w) : e'.workflow w = ((e.workflow w).left s).moved s t :=
  (workflow_of_core he.core w).trans (workflow_mapWorkflow_self (e := e.mapStep t _) _ hw)

theorem hasWorkflow_of_follows (hw : e.HasWorkflow w) : e'.HasWorkflow w :=
  (hasWorkflow_of_core he.core w).mpr ((hasWorkflow_mapWorkflow ..).mpr hw)

theorem hasStep_of_follows (u : StepId) : e'.HasStep u ↔ e.HasStep u :=
  (hasStep_of_core he.core u).trans (hasStep_mapStep ..)

theorem size_of_follows : e'.steps.size = e.steps.size :=
  (congrArg (fun c : Core => c.steps.size) he.core).trans (Array.size_modify ..)

/-- To be bound changes a step only in what it is bound to. -/
theorem step_of_follows {α : Type} {g : Step → α} (hg : ∀ st wf, g (st.boundTo wf) = g st) (u : StepId) :
    g (e'.step u) = g (e.step u) := by
  rw [step_of_core he.core]
  exact step_mapStep_eq (hg _ _) u

theorem step_of_follows_self (ht : e.HasStep t) : e'.step t = (e.step t).boundTo (e.workflow w) :=
  (step_of_core he.core t).trans (step_mapStep_self _ ht)

end GoingOn

/-- What has to hold for a turn, after the step `s` has been worked on, to end as `Q` and `F` say. -/
structure TurnEnds (h : Hooks σ γ) (w : WorkflowId) (s : StepId) (e : Engine σ)
    (Q : Progress → Engine σ → Prop) (F : Failure → Engine σ → Prop) : Prop where
  failed : ∀ x, F x e
  again : (e.step s).isCompleted = false → (e.step s).isDecision = false → Q (.stop .running) e
  waits : (e.step s).isCompleted = false → (e.step s).isDecision = true →
    ∀ e', e'.Alike (e.mapWorkflow w ({ · with state := .waiting })) → e'.clock = e.clock →
      (emit h w (.waiting (e.step s).number)).Ends e' (fun _ => Q (.stop .waiting)) F
  ends : (e.step s).isCompleted = true → ∀ state kind, (e.step s).Closes state kind →
    ∀ e', e'.Alike (e.mapWorkflow w fun wf => (wf.left s).ended state e.clock.now) →
      e.clock.GoesOn e'.clock → (emit h w kind).Ends e' (fun _ => Q (.stop state)) F
  blocked : (e.step s).isCompleted = true → ∀ t, (e.step s).next? (e.step s).outcome = some t →
    (e.step t).isCompleted = true →
      F (.successorCompleted (e.step t).key (e.step s).key) (e.mapWorkflow w (·.left s))
  unbound : (e.step s).isCompleted = true → ∀ t, (e.step s).next? (e.step s).outcome = some t →
    (e.step t).isCompleted = false → (e.step t).isStarted = true →
      F (.boundElsewhere (e.step t).key) (e.mapWorkflow w (·.left s))
  follows : (e.step s).isCompleted = true → (e.step s).outcome.same .abort = false →
    ∀ t, (e.step s).next? (e.step s).outcome = some t → (e.step t).isCompleted = false →
      ∀ e', e'.Alike ((e.mapStep t (·.boundTo (e.workflow w))).mapWorkflow w
        fun wf => (wf.left s).moved s t) → e'.clock = e.clock → Q .goOn e'

structure LeaveEnds (h : Hooks σ γ) (w : WorkflowId) (s : StepId) (e : Engine σ)
    (Q : Progress → Engine σ → Prop) (F : Failure → Engine σ → Prop) : Prop where
  ends : ∀ state kind, (e.step s).Closes state kind →
    ∀ e', e'.Alike (e.mapWorkflow w fun wf => (wf.left s).ended state e.clock.now) →
      e.clock.GoesOn e'.clock → (emit h w kind).Ends e' (fun _ => Q (.stop state)) F
  blocked : ∀ t, (e.step s).next? (e.step s).outcome = some t → (e.step t).isCompleted = true →
    F (.successorCompleted (e.step t).key (e.step s).key) (e.mapWorkflow w (·.left s))
  unbound : ∀ t, (e.step s).next? (e.step s).outcome = some t → (e.step t).isCompleted = false →
    (e.step t).isStarted = true → F (.boundElsewhere (e.step t).key) (e.mapWorkflow w (·.left s))
  follows : (e.step s).outcome.same .abort = false →
    ∀ t, (e.step s).next? (e.step s).outcome = some t → (e.step t).isCompleted = false →
      ∀ e', e'.Alike ((e.mapStep t (·.boundTo (e.workflow w))).mapWorkflow w
        fun wf => (wf.left s).moved s t) → e'.clock = e.clock → Q .goOn e'

theorem TurnEnds.leaves {Q : Progress → Engine σ → Prop} (H : TurnEnds h w s e Q F)
    (hc : (e.step s).isCompleted = true) : LeaveEnds h w s e Q F :=
  ⟨H.ends hc, H.blocked hc, H.unbound hc, H.follows hc⟩

section Turn

variable {Q : Progress → Engine σ → Prop}

theorem pause_ends (hr : (e.workflow w).state = .running) (H : TurnEnds h w s e Q F)
    (hc : (e.step s).isCompleted = false) : (pause h w s).Ends e Q F := by
  simp only [pause, ends_bind, ends_get]
  cases hd : (e.step s).isDecision
  case false => exact H.again hc hd
  have ha : (e.workflow w).state.allows .waiting = true := by rw [hr]; rfl
  rw [if_pos rfl, ends_bind]
  refine ends_moveWorkflow .waiting ha fun e' he hk => ?_
  rw [ends_bind]
  exact H.waits hc hd e' he hk

theorem follow_ends (hw : e.HasWorkflow w) (H : LeaveEnds h w s e Q F)
    (ho : (e.step s).outcome.same .abort = false) (t : StepId)
    (ht : (e.step s).next? (e.step s).outcome = some t) (o : Outcome) :
    (follow w s t o).Ends (e.mapWorkflow w (·.left s)) (fun _ => Q .goOn) F := by
  have hl : (e.mapWorkflow w (·.left s)).workflow w = (e.workflow w).left s :=
    workflow_mapWorkflow_self _ hw
  simp only [follow, ends_bind, ends_get, ends_failIf, ends_bindStep, ends_updateWorkflow, ends_note,
    step_mapWorkflow, hl]
  cases hct : (e.step t).isCompleted
  case true => exact H.blocked t ht hct
  rw [if_neg Bool.false_ne_true]
  split
  · rename_i hb
    exact H.unbound t ht hct (Bool.and_eq_true _ _ ▸ hb).1
  · refine H.follows ho t ht hct _ ((alike_aside _ _ _).trans ?_) rfl
    rw [mapStep_mapWorkflow, mapWorkflow_mapWorkflow]
    exact alike_refl _

theorem leave_ends (hr : (e.workflow w).state = .running) (hw : e.HasWorkflow w)
    (H : LeaveEnds h w s e Q F) : (leave h w s).Ends e Q F := by
  have hl : (e.mapWorkflow w (·.left s)).workflow w = (e.workflow w).left s :=
    workflow_mapWorkflow_self _ hw
  have ends : ∀ state kind, (e.step s).Closes state kind →
      ((e.workflow w).left s).state.allows state = true →
      (finish h w state kind).Ends (e.mapWorkflow w (·.left s)) (fun _ => Q (.stop state)) F := by
    intro state kind hk ha
    refine ends_finish state kind (by rw [hl]; exact ha) fun e' he hc => ?_
    rw [mapWorkflow_mapWorkflow] at he
    exact H.ends state kind hk e' he hc
  have hr' : ((e.workflow w).left s).state = .running := hr
  simp only [leave, record, ends_bind, ends_get, ends_updateWorkflow]
  show Ends _ (e.mapWorkflow w (·.left s)) _ _
  cases ho : (e.step s).outcome.same .abort
  case true =>
    rw [step_mapWorkflow, if_pos ho]
    exact (ends_bind _ _).mpr (ends .aborted _ (.abort ho) (by rw [hr']; rfl))
  rw [step_mapWorkflow, if_neg (by rw [ho]; exact Bool.false_ne_true)]
  cases hn : (e.step s).next? (e.step s).outcome with
  | none => exact (ends_bind _ _).mpr (ends .completed _ (.complete ho hn) (by rw [hr']; rfl))
  | some t => exact (ends_bind _ _).mpr (follow_ends hw H ho t hn _)

/-- After its step has been worked on, a turn ends in one of the ways that `TurnEnds` lists. -/
theorem TurnEnds.settles (H : TurnEnds h w s e Q F) (hr : (e.workflow w).state = .running)
    (hw : e.HasWorkflow w) :
    (if (e.step s).isCompleted then leave h w s else pause h w s).Ends e Q F := by
  cases hc : (e.step s).isCompleted
  case true => rw [if_pos rfl]; exact leave_ends hr hw (H.leaves hc)
  case false => rw [if_neg Bool.false_ne_true]; exact pause_ends hr H hc

/-- A turn of a running workflow with quiet hooks works on the current step first. -/
theorem turn_ends (hq : h.Quiet) (hl : h.Logs seen) (hr : (e.workflow w).state = .running)
    (hw : e.HasWorkflow w)
    (H : ∀ e₁, Worked seen (e.workflow w).current e e₁ →
      TurnEnds h w (e.workflow w).current e₁ Q F) (context : γ) :
    (turn h w context).Ends e Q F := by
  simp only [turn, ends_bind, ends_get]
  -- Whether the step is run or not, it has been worked on.
  have hs := (runStep_worked (e.workflow w).current hq hl w context).onlyIf
    (!(e.step (e.workflow w).current).isCompleted)
  refine (hs.ends e).mono ?_ fun x e₁ h₁ => (H e₁ h₁).failed x
  intro _ e₁ h₁
  have hr₁ : (e₁.workflow w).state = .running := by rw [h₁.workflow w, hr]
  exact (H e₁ h₁).settles hr₁ ((h₁.hasWorkflow w).mpr hw)

end Turn

/-! ## The traversal -/

/-- What is to hold after a turn: `Q` if the traversal stops, `P` if it goes on. -/
def after (Q : WorkflowState → Engine σ → Prop) (P : Engine σ → Prop) : Progress → Engine σ → Prop
  | .stop state => Q state
  | .goOn => P

section Traverse

variable {P : Engine σ → Prop} {Q : WorkflowState → Engine σ → Prop} {context : γ}

/-- A traversal is a turn and, if that leads on, another traversal. -/
theorem traverse_succ_ends {turns : Nat}
    (ht : (turn h w context).Ends e (after Q fun e' => (traverse h w context turns).Ends e' Q F) F) :
    (traverse h w context (turns + 1)).Ends e Q F := by
  unfold traverse
  rw [ends_bind]
  refine ht.mono (fun progress _ hp => ?_) fun _ _ hf => hf
  cases progress <;> exact hp

/-- What each turn leads back to, and what its end and its failure imply, holds of the traversal. -/
theorem traverse_ends (ht : ∀ e, P e → (turn h w context).Ends e (after Q P) F)
    (hx : ∀ e, P e → F .exhausted e) (turns : Nat) (he : P e) :
    (traverse h w context turns).Ends e Q F := by
  -- By induction on the turns that are left; `P` is what holds before each of them.
  induction turns generalizing e with
  | zero => exact hx e he
  | succ turns ih =>
    refine traverse_succ_ends ((ht e he).mono (fun progress e' hp => ?_) fun _ _ hf => hf)
    cases progress with
    | stop state => exact hp
    | goOn => exact ih hp

/-- The rule for the traversal of a running workflow with quiet hooks. -/
theorem process_ends (hq : h.Quiet) (hl : h.Logs seen)
    (hr : ∀ e, P e → (e.workflow w).state = .running ∧ e.HasWorkflow w)
    (ht : ∀ e, P e → ∀ e₁, Worked seen (e.workflow w).current e e₁ →
      TurnEnds h w (e.workflow w).current e₁ (after Q P) F) (he : P e) :
    (process h w context).Ends e Q F :=
  traverse_ends (fun e he => turn_ends hq hl (hr e he).1 (hr e he).2 (ht e he) context)
    (fun e he => (ht e he e (refl e)).failed _) _ he

/-- Managers take no notice of a workflow that starts or goes on. -/
theorem emit_core (hq : h.Quiet) (hl : h.Logs seen) {kind : EventKind}
    (hk : kind = .started ∨ kind = .running) (e : Engine σ) :
    (emit h w kind).Ends e (fun _ e' => e'.core = e.core ∧ Adds seen (fun _ => False) e e')
      (fun _ e' => e'.core = e.core ∧ Adds seen (fun _ => False) e e') := by
  let R : Engine σ → Engine σ → Prop := fun e e' => e'.core = e.core ∧ Adds seen (fun _ => False) e e'
  have : IsPreorder (Engine σ) R :=
    { refl := fun e => ⟨rfl, adds_refl _ e⟩
      trans := fun _ _ _ h h' => ⟨h'.1.trans h.1, h.2.trans h'.2⟩ }
  suffices hR : (emit h w kind).Always R from hR.ends e
  refine always_get.bind fun e => Always.forM _ fun l _ => ?_
  cases l with
  | observer l => exact fun e => ⟨hq.observe l _ e, hl.observe l _ e⟩
  | manager m =>
    refine always_get.bind fun e => ?_
    split
    · exact always_pure _
    · rcases hk with rfl | rfl <;> exact always_pure _

/-- What `advance` does before the first turn. It gives whether there are to be turns. -/
def enter (h : Hooks σ γ) (w : WorkflowId) : Act σ Bool := do
  let e ← get
  let wf := e.workflow w
  failIf wf.state.isTerminal (.workflowOver wf.id wf.state)
  match wf.state with
  | .waiting =>
    if (e.step wf.current).isCompleted then
      moveWorkflow w .running
      emit h w .running
      return true
    else return false
  | .created =>
    moveWorkflow w .running
    let t ← readClock
    updateWorkflow w ({ · with startTime := t })
    emit h w .started
    return true
  | _ => return true

theorem advance_eq_enter (h : Hooks σ γ) (w : WorkflowId) (context : γ) :
    advance h w context = do
      if ← enter h w then process h w context else return .waiting := by
  unfold advance enter
  simp only [bind_assoc]
  congr 1
  funext e
  congr 1
  funext _
  cases (e.workflow w).state <;> simp only [bind_assoc, pure_bind, if_true]
  split <;> simp

/-- Before the first turn `advance` sets the workflow running and tells its listeners, unless it is running
already, waits for an answer or is over. It starts at the time that the clock reads; one that goes on keeps
its start time. -/
theorem enter_ends {Q : Bool → Engine σ → Prop}
    (terminal : (e.workflow w).state.isTerminal = true → ∀ x, F x e)
    (idle : (e.workflow w).state = .waiting →
      (e.step (e.workflow w).current).isCompleted = false → Q false e)
    (going : (e.workflow w).state = .running → Q true e)
    (starts : (e.workflow w).state = .created → ∀ e₁,
      e₁.Alike (e.mapWorkflow w (·.resumed e.clock.now)) → e.clock.GoesOn e₁.clock →
        (emit h w .started).Ends e₁ (fun _ => Q true) F)
    (resumes : (e.workflow w).state = .waiting → (e.step (e.workflow w).current).isCompleted = true →
      ∀ e₁, e₁.Alike (e.mapWorkflow w (·.resumed (e.workflow w).startTime)) → e₁.clock = e.clock →
        (emit h w .running).Ends e₁ (fun _ => Q true) F) :
    (enter h w).Ends e Q F := by
  unfold enter
  simp only [ends_bind, ends_get, ends_failIf]
  cases hs : (e.workflow w).state with
  | completed => exact terminal (by rw [hs]; rfl) _
  | aborted => exact terminal (by rw [hs]; rfl) _
  | running => exact going hs
  | created =>
    simp only [ends_bind]
    refine ends_moveWorkflow .running (by rw [hs]; rfl) fun e₁ h₁ hk => ?_
    rw [ends_readClock, ends_updateWorkflow, hk]
    have h₂ := h₁.mapWorkflow w ({ · with startTime := e.clock.now })
    rw [mapWorkflow_mapWorkflow] at h₂
    exact starts hs _ (((alike_aside _ _ _).mapWorkflow _ _).trans h₂) (Clock.goesOn_tick _)
  | waiting =>
    cases hc : (e.step (e.workflow w).current).isCompleted
    case false => exact idle hs hc
    rw [if_neg (by decide), if_pos rfl, ends_bind]
    refine ends_moveWorkflow .running (by rw [hs]; rfl) fun e₁ h₁ hk => (ends_bind _ _).mpr ?_
    refine resumes hs hc e₁ (h₁.trans ?_) hk
    rw [mapWorkflow_congr (b := (·.resumed (e.workflow w).startTime)) rfl]
    exact alike_refl _

/-- The rule for `advance` with any hooks: what comes before the first turn, and the traversal. -/
theorem advance_enters (terminal : (e.workflow w).state.isTerminal = true → ∀ x, F x e)
    (idle : (e.workflow w).state = .waiting →
      (e.step (e.workflow w).current).isCompleted = false → Q .waiting e)
    (going : (e.workflow w).state = .running → (process h w context).Ends e Q F)
    (enters : (e.workflow w).state = .created ∨
      (e.workflow w).state = .waiting ∧ (e.step (e.workflow w).current).isCompleted = true →
        ∀ kind, kind = .started ∨ kind = .running → ∀ t e₁,
          e₁.Alike (e.mapWorkflow w (·.resumed t)) →
            (emit h w kind >>= fun _ => process h w context).Ends e₁ Q F) :
    (advance h w context).Ends e Q F := by
  rw [advance_eq_enter, ends_bind]
  refine enter_ends terminal idle going (fun hs e₁ h₁ _ => ?_) fun hs hc e₁ h₁ _ => ?_
  · exact (ends_bind _ _).mp (enters (.inl hs) .started (.inl rfl) _ e₁ h₁)
  · exact (ends_bind _ _).mp (enters (.inr ⟨hs, hc⟩) .running (.inr rfl) _ e₁ h₁)

/-- The rule for `advance` with quiet hooks. -/
theorem advance_ends (hq : h.Quiet) (hl : h.Logs seen)
    (terminal : (e.workflow w).state.isTerminal = true → ∀ x, F x e)
    (idle : (e.workflow w).state = .waiting →
      (e.step (e.workflow w).current).isCompleted = false → Q .waiting e)
    (going : (e.workflow w).state = .running → P e)
    (enter : (e.workflow w).state = .created ∨
      (e.workflow w).state = .waiting ∧ (e.step (e.workflow w).current).isCompleted = true →
        ∀ t e', e'.core = (e.mapWorkflow w (·.resumed t)).core → Adds seen (fun _ => False) e e' → P e')
    (hr : ∀ e, P e → (e.workflow w).state = .running ∧ e.HasWorkflow w)
    (ht : ∀ e, P e → ∀ e₁, Worked seen (e.workflow w).current e e₁ →
      TurnEnds h w (e.workflow w).current e₁ (after Q P) F) :
    (advance h w context).Ends e Q F := by
  have go : ∀ {e}, P e → (process h w context).Ends e Q F := process_ends hq hl hr ht
  refine advance_enters terminal idle (fun hs => go (going hs)) fun hs kind hk t e₁ h₁ => ?_
  -- Listeners are told before the first turn; if one fails, the workflow is already running.
  have hp : ∀ e', e'.core = e₁.core ∧ Adds seen (fun _ => False) e₁ e' → P e' := by
    intro e' he'
    have ha : Adds seen (fun _ => False) e e₁ := adds_of_host h₁.host
    exact enter hs t e' (he'.1.trans h₁.core) (ha.trans he'.2)
  rw [ends_bind]
  refine (emit_core hq hl hk e₁).mono (fun _ e' he' => go (hp e' he')) fun x e' he' => ?_
  exact (ht e' (hp e' he') e' (refl e')).failed x

end Traverse

/-! ## Aborting -/

/-- Aborting gives the current step the outcome of an abort unless it is completed, and then ends the
workflow, each at the time that the clock reads. -/
theorem abort_closes {Q : Unit → Engine σ → Prop}
    (terminal : (e.workflow w).state.isTerminal = true → ∀ x, F x e)
    (ends : (e.workflow w).state.isTerminal = false →
      ∀ e₁, (if (e.step (e.workflow w).current).isCompleted then e₁ = e
        else e₁.Alike (e.mapStep (e.workflow w).current (·.given .abort e.clock.now)) ∧
          e.clock.GoesOn e₁.clock) →
        ∀ e', e'.Alike (e₁.mapWorkflow w (·.aborted e₁.clock.now)) → e₁.clock.GoesOn e'.clock →
          (emit h w (.aborted Outcome.abort.key)).Ends e' Q F) :
    (abort h w).Ends e Q F := by
  -- Recording the current step, unless it is the last of the history, and ending the workflow.
  have close : (e.workflow w).state.isTerminal = false → ∀ e₁,
      (if (e.step (e.workflow w).current).isCompleted then e₁ = e
        else e₁.Alike (e.mapStep (e.workflow w).current (·.given .abort e.clock.now)) ∧
          e.clock.GoesOn e₁.clock) →
      (onlyIf ((e.workflow w).history.getLast? != some (e.workflow w).current)
        (record w (e.workflow w).current) >>= fun _ =>
          finish h w .aborted (.aborted Outcome.abort.key)).Ends e₁ Q F := by
    intro ht e₁ h₁
    have hwf : e₁.workflow w = e.workflow w := by
      split at h₁
      · rw [h₁]
      · exact workflow_of_core h₁.1.core w
    have ha : (e₁.workflow w).state.allows .aborted = true := by
      rw [hwf]
      cases hst : (e.workflow w).state <;> simp_all [WorkflowState.isTerminal, WorkflowState.allows]
    rw [ends_bind, ends_onlyIf]
    split
    · rename_i hn
      rw [record, ends_updateWorkflow]
      refine ends_finish .aborted _ (allowed_mapWorkflow rfl ha) fun e' he hk => ?_
      rw [mapWorkflow_mapWorkflow] at he
      refine ends ht e₁ h₁ e' (he.trans ?_) hk
      rw [mapWorkflow_congr (b := (·.aborted e₁.clock.now))]
      · exact alike_refl _
      · show _ = (e₁.workflow w).aborted e₁.clock.now
        rw [hwf, Workflow.aborted, if_pos hn]
        rfl
    · rename_i hn
      refine ends_finish .aborted _ ha fun e' he hk => ?_
      refine ends ht e₁ h₁ e' (he.trans ?_) hk
      rw [mapWorkflow_congr (b := (·.aborted e₁.clock.now))]
      · exact alike_refl _
      · show _ = (e₁.workflow w).aborted e₁.clock.now
        rw [hwf, Workflow.aborted, if_neg hn]
  simp only [abort, ends_bind, ends_get, ends_failIf]
  cases ht : (e.workflow w).state.isTerminal
  case true => exact terminal ht _
  rw [if_neg Bool.false_ne_true, ends_onlyIf]
  cases hc : (e.step (e.workflow w).current).isCompleted
  case true => exact (ends_bind _ _).mp (close ht e (by rw [hc]; rfl))
  -- An incomplete step always takes the abort.
  -- So the only failure of `setOutcome` that is left is one that cannot happen.
  have hset := setOutcome_gives (e.workflow w).current .abort e
  refine hset.mono (fun _ e₁ h₁ => (ends_bind _ _).mp (close ht e₁ ?_)) fun _ _ h₁ => ?_
  · rw [hc, if_neg Bool.false_ne_true]
    exact h₁.2
  · rcases h₁.2 with hn | hn
    · rw [hc] at hn; contradiction
    · rw [permits_abort] at hn; contradiction

variable (seen) in
/-- The rule for `abort`: the current step is completed, if need be by the abort. -/
theorem abort_ends {Q : Unit → Engine σ → Prop} (hs : e.HasStep (e.workflow w).current)
    (terminal : (e.workflow w).state.isTerminal = true → ∀ x, F x e)
    (ends : (e.workflow w).state.isTerminal = false →
      ∀ e₁, Worked seen (e.workflow w).current e e₁ → e₁.host = e.host →
        (e₁.step (e.workflow w).current).isCompleted = true →
        ∀ t e', e'.Alike (e₁.mapWorkflow w (·.aborted t)) →
          (emit h w (.aborted Outcome.abort.key)).Ends e' Q F) :
    (abort h w).Ends e Q F := by
  apply abort_closes terminal
  intro ht e₁ h₁ e' he _
  split at h₁
  · rename_i hc
    subst h₁
    exact ends ht e₁ (refl e₁) rfl hc _ e' he
  · rename_i hc
    obtain ⟨h₁, -⟩ := h₁
    refine ends ht e₁ ?_ h₁.host ?_ _ e' he
    · exact worked_mapStep (·.given .abort e.clock.now)
        (Step.worked_of_frame (Bool.eq_false_iff.mpr hc) (Step.frame_given ..)) h₁
    · rw [step_of_core h₁.core, step_mapStep_self _ hs]
      exact Step.isCompleted_given rfl _

/-! ## Making workflows -/

theorem workflow_of_push {wf : Workflow} (hp : e'.workflows = e.workflows.push wf) (v : WorkflowId) :
    e'.workflow v = if v = ⟨e.workflows.size⟩ then wf else e.workflow v := by
  unfold Engine.workflow
  rw [hp, Array.getD_eq_getD_getElem?, Array.getD_eq_getD_getElem?, Array.getElem?_push]
  have hv : v.index = e.workflows.size ↔ v = ⟨e.workflows.size⟩ := by cases v; simp
  simp only [hv]
  split <;> rfl

theorem hasWorkflow_of_push {wf : Workflow} (hp : e'.workflows = e.workflows.push wf) (v : WorkflowId) :
    e'.HasWorkflow v ↔ e.HasWorkflow v ∨ v = ⟨e.workflows.size⟩ := by
  have hv : v = ⟨e.workflows.size⟩ ↔ v.index = e.workflows.size := by cases v; simp
  rw [hv, HasWorkflow, HasWorkflow, hp, Array.size_push]
  omega

theorem workflow_of_push_old {wf : Workflow} (hp : e'.workflows = e.workflows.push wf)
    {v : WorkflowId} (hv : e.HasWorkflow v) : e'.workflow v = e.workflow v := by
  rw [workflow_of_push hp, if_neg]
  rintro rfl
  exact Nat.lt_irrefl _ hv

theorem workflow_of_push_new {wf : Workflow} (hp : e'.workflows = e.workflows.push wf) :
    e'.workflow ⟨e.workflows.size⟩ = wf := by
  rw [workflow_of_push hp, if_pos rfl]

/-- A new workflow is added at the end, and its first step is bound to it unless that was started for
another one. -/
theorem addWorkflow_ends (key : String) (first : StepId) (owner : Option Actor) (id : Int)
    (context : Context) (e : Engine σ) :
    (addWorkflow key first owner id context).Ends e
      (fun v e' => ((e.step first).isStarted &&
          (e.step first).context.any (· != ⟨e.contexts.size⟩)) = false ∧ v = ⟨e.workflows.size⟩ ∧
        ∃ wf : Workflow, wf = { key, owner, id, first, current := first, context := ⟨e.contexts.size⟩ } ∧
          e' = { e.mapStep first (·.boundTo wf) with
            contexts := e.contexts.push context, workflows := e.workflows.push wf })
      (fun _ e' => ((e.step first).isStarted &&
        (e.step first).context.any (· != ⟨e.contexts.size⟩)) = true ∧ e' = e) := by
  simp only [addWorkflow, ends_bind, ends_get, ends_bindStep, ends_modifyGet]
  split
  · rename_i hb
    exact ⟨hb, trivial⟩
  · rename_i hb
    exact ⟨Bool.not_eq_true _ ▸ hb, rfl, _, rfl, rfl⟩

/-- A workflow that has not started gets another id. Its first step is bound again unless that was started
for another workflow. -/
theorem assignId_ends (w : WorkflowId) (id : Int) (e : Engine σ) :
    (assignId w id).Ends e
      (fun _ e' => (e.workflow w).state = .created ∧
        ((e.step (e.workflow w).first).isStarted &&
          (e.step (e.workflow w).first).context.any (· != (e.workflow w).context)) = false ∧
        e' = (e.mapWorkflow w (·.renamed id)).mapStep (e.workflow w).first
          (·.boundTo ((e.workflow w).renamed id)))
      (fun _ e' => e' = e ∨ (e.workflow w).state = .created ∧
        ((e.step (e.workflow w).first).isStarted &&
          (e.step (e.workflow w).first).context.any (· != (e.workflow w).context)) = true ∧
        e' = e.mapWorkflow w (·.renamed id)) := by
  simp only [assignId, ends_bind, ends_get, ends_failIf, ends_updateWorkflow, ends_bindStep]
  split
  · exact .inl trivial
  rename_i hst
  have hcreated : (e.workflow w).state = .created := by simpa using hst
  split
  · rename_i hb
    exact .inr ⟨hcreated, hb, rfl⟩
  · rename_i hb
    exact ⟨hcreated, Bool.not_eq_true _ ▸ hb, rfl⟩

end Engine

end ApprovalFlow
