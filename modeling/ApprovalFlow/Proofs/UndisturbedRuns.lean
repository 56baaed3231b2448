import ApprovalFlow.Proofs.ManagedChanges
import ApprovalFlow.Proofs.ObservingListeners

/-!
# Runs that listeners do not disturb

Each operation leads to the same whether listeners are heard or not, as long as they keep to their place
(`next_overhears`), so every run does (`undisturbed`). A listener that raises before the manager is told is
out of its place: it keeps the manager from queueing the decision that the workflow waits for, or from filing
the workflow that is over.
-/

namespace ApprovalFlow.Engine

open Act

variable {σ ρ γ : Type} {κ : σ → ρ} {h : Hooks σ γ} {e e' : Engine σ} {op : Operation σ γ}
  {ops : List (Operation σ γ)} {w : WorkflowId} {m : ManagerId}

/-! ## Registering -/

theorem audience_listening {l : Listener} (w v : WorkflowId) :
    (e.mapWorkflow w fun wf => { wf with listeners := wf.listeners ++ [l] }).audience v =
      if v = w ∧ e.HasWorkflow w then e.audience v ++ [l] else e.audience v := by
  unfold audience
  rw [workflow_mapWorkflow]
  split <;> rfl

theorem unheard_listening (wf : Workflow) (l : Listener) :
    ({ wf with listeners := wf.listeners ++ [l] } : Workflow).unheard =
      { wf.unheard with listeners := wf.unheard.listeners ++ [l].filter (·.isManager) } := by
  unfold Workflow.unheard
  rw [List.filter_append]

theorem Overheard.listening (ho : e.Overheard κ e') (w : WorkflowId) (l : Listener) :
    (e.mapWorkflow w fun wf => { wf with listeners := wf.listeners ++ [l] }).Overheard κ
      (e'.mapWorkflow w fun wf => { wf with listeners := wf.listeners ++ [l] }) := by
  have hw := ho.workflow w
  refine ho.mapWorkflow (fun wf => { wf with listeners := wf.listeners ++ [l].filter (·.isManager) })
    (fun wf => { wf with listeners := wf.listeners ++ [l].filter (·.isManager) }) (unheard_listening _ l)
    (unheard_listening _ l) { hw with listeners := ?_ }
  rw [hw.listeners]

/-- A manager comes to listen behind listeners that do not raise then. -/
theorem agree_register_overhears
    (hm : e.Overheard κ e' ∧ h.Ranks e.audience ∧ ∀ l ∈ e.audience w, h.Reserved l) :
    Agree (Overhears h κ) Quietly (register m w) (register m w) e e' := by
  obtain ⟨ho, hranks, hreserved⟩ := hm
  apply agree_get_bind
  dsimp only
  rw [show (e'.workflow w).id = _ from (ho.workflow w).id.symm]
  have hregistered : ∀ f : Manager → Manager, (e.mapManager m f).Overheard κ (e'.mapManager m f) :=
    Like.mapManager ho m
  refine agree_modify_bind (agree_modify_bind (overhears_whole.bond w |>.note ?_))
  refine ⟨(hregistered _).listening w (.manager m), fun v => ?_⟩
  show List.Pairwise _ (Engine.audience (Engine.mapWorkflow _ w _) v)
  rw [audience_listening]
  split
  · rename_i hv
    refine List.pairwise_append.mpr ⟨hranks v, List.pairwise_singleton _ _, fun a ha b _ _ => ?_⟩
    exact hreserved a (hv.1 ▸ ha)
  · exact hranks v

/-! ## Operations -/

theorem takesErrors_overhears : TakesErrors (fun _ => True) (Overhears h κ) := by
  intro e e' hm s hs text
  exact ⟨takesErrors_like (L := .sharing κ) (fun hb => hb.2.1) (fun _ hb => ⟨hb.1, rfl, hb.2.2⟩) hm.1 hs
    text, hm.2⟩

/-- The result of an operation left out. -/
theorem curtailed_quietly {α : Type} {m m' : Act σ α}
    (hc : Curtailed (Overhears h κ) Eq (fun _ => True) m m' e e') :
    Curtailed (Overhears h κ) Quietly (fun _ => True) (do let _ ← m) (do let _ ← m') e e' :=
  hc.bind (fun _ _ _ _ _ hm => (agree_pure trivial hm).curtailed) fun _ _ => ⟨(), rfl, trivial⟩

/-- An operation leads to the same whether listeners are heard or not. -/
theorem next_overhears (hu : h.Unaware κ) (hmut : h.Mutters κ) (hm : Overhears h κ e e')
    (hop : Admits h κ e op) : Overhears h κ (next h e op) (next h.deaf e' op) := by
  have hc := concord_deaf hmut hu
  refine Curtailed.state (V := Quietly) (N := fun _ => True) (?_ : Curtailed (Overhears h κ) _ _
    (perform h op) (perform h.deaf op) e e')
  cases op with
  | advance w context => exact curtailed_quietly (overhears_whole.advance takesErrors_overhears hc hm)
  | abort w => exact overhears_whole.abort hc hm
  | resolve s o => exact ((overhears_whole.bond default).resolve trivial hm rfl).curtailed
  | reassign s actor => exact ((overhears_whole.bond default).reassign trivial hm).curtailed
  | start m w context =>
    by_cases hr : e.Refused m w
    · exact curtailed_quietly (overhears_whole.startManaged_refused hr hm).curtailed
    · exact curtailed_quietly (overhears_whole.startManaged takesErrors_overhears hc
        (overheard_whole fun audience => h.Ranks audience ∧ ∀ l ∈ audience w, h.Reserved l)
        (fun _ _ hm => ⟨hm.1, hm.2.1⟩) (fun _ _ => agree_register_overhears) ⟨hm.1, hm.2, hop hr⟩)
  | decide m s o actor context =>
    exact curtailed_quietly (overhears_whole.decide takesErrors_overhears hc rfl hm)
  | decideQueued q s o actor => exact (overhears_whole.decideQueued hc rfl actor hm).curtailed
  | reassignQueued q s actor => exact overhears_whole.reassignQueued hc actor hm
  | other action => exact (hop e e' hm).curtailed

theorem runs_overhears (hu : h.Unaware κ) (hmut : h.Mutters κ) (hm : Overhears h κ e e')
    (hops : Along h (Admits h κ) e ops) : Overhears h κ (runs h e ops) (runs h.deaf e' ops) := by
  induction ops generalizing e e' with
  | nil => exact hm
  | cons op ops ih => exact ih (next_overhears hu hmut hm hops.1) hops.2

/-- A listener may be added to a workflow at any time. -/
theorem admits_listenTo (w : WorkflowId) (l : ListenerId) :
    Admits h κ e (.other (listenTo w (.observer l)) : Operation σ γ) := by
  intro e₁ e' hm
  refine agree_modify ⟨hm.1.listening w (.observer l), fun v => ?_⟩
  show List.Pairwise _ (Engine.audience (Engine.mapWorkflow _ w _) v)
  rw [audience_listening]
  split
  · refine List.pairwise_append.mpr ⟨hm.2 v, List.pairwise_singleton _ _, fun a _ b hb hman => ?_⟩
    rw [List.mem_singleton.mp hb] at hman
    contradiction
  · exact hm.2 v

/-- A listener may be added to a queue at any time. -/
theorem admits_listenToQueue (q : QueueId) (l : ListenerId) :
    Admits h κ e (.other (listenToQueue q l) : Operation σ γ) := by
  intro e₁ e' hm
  have hsame : ∀ e : Engine σ, (e.mapQueue q fun d => { d with listeners := d.listeners ++ [l] }).unheard =
      e.unheard.mapQueue q id := fun _ => unheard_mapQueue rfl
  have ho : (e₁.mapQueue q fun d => { d with listeners := d.listeners ++ [l] }).Overheard κ
      (e'.mapQueue q fun d => { d with listeners := d.listeners ++ [l] }) := by
    unfold Overheard
    rw [hsame, hsame]
    exact Like.mapQueue hm.1 q id
  exact agree_modify ⟨ho, hm.2⟩

theorem SameWork.state (hs : SameWork e e') (w : WorkflowId) :
    (e.workflow w).state = (e'.workflow w).state := by
  show (e.workflow w).unheard.state = (e'.workflow w).unheard.state
  rw [hs.workflow w]

/-- Engines that are overheard show the same work. -/
theorem Overheard.sameWork (ho : e.Overheard κ e') : SameWork e e' where
  step s := (Like.step ho s).eq_of_outcome id id (congrFun ho.beyond.2.1 s)
  workflow w := (ho.workflow w).eq_of_time id
  queued := (overheard_whole fun _ => True).queued ⟨ho, trivial⟩
  managers := ho.managers
  contexts := ho.contexts

/-- Whatever listeners there are, if they do not raise when the operation has to go on nor before a manager is
told that a workflow waits or is over, all that is done leads to the same as without them. -/
theorem undisturbed (hu : h.Unaware κ) (hmut : h.Mutters κ) (hranks : h.Ranks e.audience)
    (hops : Along h (Admits h κ) e ops) : SameWork (runs h e ops) (runs h.deaf e.unheard ops) :=
  (runs_overhears hu hmut ⟨overheard_unheard κ e, hranks⟩ hops).1.sameWork

/-! ## An office with listeners -/

def objecting (objects : EventKind → Bool) : Hooks (List StepId) Unit :=
  { loggingHooks with
    observe := fun _ event => failIf (objects event.kind) (.raised .runtime "enough") }

/-- Objections to all events but those after which the operation goes on. -/
def late : EventKind → Bool
  | .started | .running | .dequeued _ => false
  | _ => true

theorem objects_of_raises {objects : EventKind → Bool} {l : ListenerId} {event : Event}
    (hr : (objecting objects).Raises l event) : objects event.kind = true := by
  obtain ⟨e, x, e', hrun⟩ := hr
  cases ho : objects event.kind
  case true => rfl
  case false =>
    have hquiet : ((objecting objects).observe l event).run e = (.ok (), e) := by
      show (failIf (objects event.kind) _).run e = _
      rw [ho]
      rfl
    cases hquiet.symm.trans hrun

theorem mutters_late : (objecting late).Mutters id where
  apart l event e := by
    show Muttered id e ((failIf (late event.kind) _).run e).2
    rw [run_failIf]
    split <;> exact ⟨e.journal, e.host, rfl, rfl⟩
  opens l event hk hr := by
    have ho := objects_of_raises hr
    rcases hk with hk | hk
    all_goals
      rw [hk] at ho
      contradiction
  removed l id n hr := absurd (objects_of_raises hr) Bool.false_ne_true

theorem unaware_objecting (objects : EventKind → Bool) : (objecting objects).Unaware id := by
  have hlog : ∀ (s : StepId) (e e' : Engine (List StepId)), e.Overheard id e' →
      Agree (Overheard id) Quietly (updateHost (· ++ [s])) (updateHost (· ++ [s])) e e' := by
    intro s e e' ho
    obtain ⟨hclock, herrors, hhost⟩ := ho.beyond
    exact agree_modify { ho with beyond := ⟨hclock, herrors, congrArg (· ++ [s]) hhost⟩ }
  exact
    { starting := fun _ _ _ ho => agree_pure trivial ho
      execute := fun s _ e e' ho => (hlog s e e' ho).bind fun _ _ _ _ _ ho => agree_pure rfl ho
      present := fun s _ e e' ho => hlog s e e' ho
      quiet :=
        { quiet_loggingHooks with
          observe := fun _ event e => by
            show ((failIf (objects event.kind) _).run e).2.core = e.core
            rw [run_failIf]
            split <;> rfl } }

/-- Listeners come to the queue before any workflow is started, and to the first workflow when it waits; the
second one is started twice. -/
def attendedDay : List (Operation (List StepId) Unit) :=
  [.other (listenToQueue ⟨0⟩ ⟨0⟩), .start ⟨0⟩ ⟨0⟩ (), .other (listenTo ⟨0⟩ (.observer ⟨0⟩)),
    .start ⟨0⟩ ⟨1⟩ (), .start ⟨0⟩ ⟨1⟩ (), .decide ⟨0⟩ ⟨0⟩ .approve (some ⟨"anna"⟩) ()]

/-- The operations are cut short, and all is done nevertheless. -/
theorem office_undisturbed :
    SameWork (runs (objecting late) (office 0) attendedDay)
        (runs (objecting late).deaf (office 0).unheard attendedDay) ∧
      ((runs (objecting late) (office 0) attendedDay).desk ⟨0⟩).queue = [⟨1⟩] ∧
      ((runs (objecting late) (office 0) attendedDay).desk ⟨0⟩).finished = [⟨0⟩] := by
  have hnobody : ∀ w, (office 0).audience w = [] := by
    have hoffice : (office 0).workflows.size = 2 ∧ ∀ i < 2, (office 0).audience ⟨i⟩ = [] := by
      decide +kernel
    intro w
    by_cases hw : w.index < 2
    · exact hoffice.2 w.index hw
    · unfold audience
      rw [workflow_of_not_hasWorkflow fun hin => hw (hoffice.1 ▸ hin)]
      rfl
  have hfirst : (next (objecting late) (office 0) (.other (listenToQueue ⟨0⟩ ⟨0⟩))).audience ⟨0⟩ = [] := by
    decide +kernel
  have hsecond : (runs (objecting late) (office 0) (attendedDay.take 3)).audience ⟨1⟩ = [] := by
    decide +kernel
  have hagain : (runs (objecting late) (office 0) (attendedDay.take 4)).Refused ⟨0⟩ ⟨1⟩ := .inl (by decide +kernel)
  have hreserved : ∀ {ls : List Listener}, ls = [] → ∀ l ∈ ls, (objecting late).Reserved l := by
    rintro _ rfl l hl
    exact absurd hl List.not_mem_nil
  have hops : Along (objecting late) (Admits (objecting late) id) (office 0) attendedDay :=
    ⟨admits_listenToQueue _ _, fun _ => hreserved hfirst, admits_listenTo _ _, fun _ => hreserved hsecond,
      fun hn => absurd hagain hn, trivial, trivial⟩
  refine ⟨undisturbed (unaware_objecting late) mutters_late (fun w => ?_) hops, by decide +kernel,
    by decide +kernel⟩
  rw [hnobody]
  exact .nil

def overheardOffice : Engine (List StepId) :=
  ((do
    listenTo ⟨0⟩ (.observer ⟨0⟩)
    listenTo ⟨1⟩ (.observer ⟨0⟩)
    listenToQueue ⟨0⟩ ⟨0⟩ : Act (List StepId) Unit).run (office 0)).2

def busyDay : List (Operation (List StepId) Unit) := officeDay ++ [.abort ⟨1⟩]

def untimely : List (EventKind → Bool) :=
  [fun | .started => true | _ => false, fun | .running => true | _ => false,
    fun | .waiting _ => true | _ => false, fun | .completed _ => true | _ => false,
    fun | .aborted _ => true | _ => false, fun | .dequeued _ => true | _ => false]

/-- A listener that stands before the manager, or at the queue, disturbs by a single objection. -/
theorem objections_disturb :
    ¬∃ objects ∈ untimely, SameWork (runs (objecting objects) overheardOffice busyDay)
      (runs (objecting objects).deaf overheardOffice.unheard busyDay) := by
  have hdiffers : ∀ objects ∈ untimely,
      ((runs (objecting objects) overheardOffice busyDay).workflow ⟨0⟩).state ≠
          ((runs (objecting objects).deaf overheardOffice.unheard busyDay).workflow ⟨0⟩).state ∨
        (runs (objecting objects) overheardOffice busyDay).managers ≠
          (runs (objecting objects).deaf overheardOffice.unheard busyDay).managers := by
    decide +kernel
  rintro ⟨objects, hobjects, hsame⟩
  rcases hdiffers objects hobjects with hstate | hmanagers
  · exact hstate (hsame.state ⟨0⟩)
  · exact hmanagers hsame.managers

end ApprovalFlow.Engine
