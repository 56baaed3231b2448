import ApprovalFlow.Proofs.GlobalRelations
import ApprovalFlow.Proofs.Operation

/-!
# Listeners that only observe

An event is told to each listener in turn, managers among them, and a listener that raises cuts off whatever
would follow: listeners behind it, and the rest of the operation. So listeners disturb nothing as long as
those before a manager do not raise, and none does when the operation has to go on after the event
(`undisturbed`).
-/

namespace ApprovalFlow

open Act

variable {σ ρ γ : Type}

def Listener.isManager : Listener → Bool
  | .manager _ => true
  | .observer _ => false

def Workflow.unheard (wf : Workflow) : Workflow :=
  { wf with listeners := wf.listeners.filter (·.isManager) }

def DecisionQueue.unheard (d : DecisionQueue) : DecisionQueue := { d with listeners := [] }

/-- All is equal, but for what listeners keep to themselves: `κ` says what of the host is not theirs. -/
def Likeness.sharing (κ : σ → ρ) : Likeness σ σ where
  outcome := Eq
  time := Eq
  beyond a a' := a.clock = a'.clock ∧ a.errors = a'.errors ∧ κ a.host = κ a'.host
  outcome_refl _ := rfl
  key h := congrArg _ h
  completion h := congrArg _ h
  unset h := h.congr_left
  now h := congrArg Clock.now h.1
  tick h := ⟨congrArg Clock.tick h.1, h.2⟩

def Hooks.deaf (h : Hooks σ γ) : Hooks σ γ := { h with observe := fun _ _ => pure () }

namespace Engine

def unheard (e : Engine σ) : Engine σ :=
  { e with workflows := e.workflows.map (·.unheard), queues := e.queues.map (·.unheard) }

/-- The engines are the same but for the listeners from outside and what these keep to themselves. -/
def Overheard (κ : σ → ρ) (e e' : Engine σ) : Prop := Like (.sharing κ) e.unheard e'.unheard

def Muttered (κ : σ → ρ) (e e' : Engine σ) : Prop :=
  ∃ j d, e' = { e with journal := j, host := d } ∧ κ d = κ e.host

structure SameWork (e e' : Engine σ) : Prop where
  step : ∀ s, e.step s = e'.step s
  workflow : ∀ w, (e.workflow w).unheard = (e'.workflow w).unheard
  queued : ∀ q, (e.queue q).decisions = (e'.queue q).decisions
  managers : e.managers = e'.managers
  contexts : e.contexts = e'.contexts

end Engine

/-- The hooks of steps do not look at who listens nor at what listeners keep to themselves, and they call no
operation of the engine. -/
structure Hooks.Unaware (κ : σ → ρ) (h : Hooks σ γ) : Prop where
  starting : ∀ s e e', e.Overheard κ e' →
    Agree (Engine.Overheard κ) Engine.Quietly (h.starting s) (h.starting s) e e'
  execute : ∀ s c e e', e.Overheard κ e' →
    Agree (Engine.Overheard κ) Eq (h.execute s c) (h.execute s c) e e'
  present : ∀ s c e e', e.Overheard κ e' →
    Agree (Engine.Overheard κ) Engine.Quietly (h.present s c) (h.present s c) e e'
  quiet : h.Quiet

def Hooks.Raises (h : Hooks σ γ) (l : ListenerId) (event : Event) : Prop :=
  ∃ e x e', (h.observe l event).run e = (.error x, e')

/-- Listeners keep to themselves, and do not raise on events after which the operation goes on. -/
structure Hooks.Mutters (κ : σ → ρ) (h : Hooks σ γ) : Prop where
  apart : ∀ l event, (h.observe l event).Always (Engine.Muttered κ)
  opens : ∀ l event, event.kind.Opens → ¬h.Raises l event
  removed : ∀ l id n, ¬h.Raises l ⟨id, .dequeued n⟩

/-- What may stand before a manager: a listener that does not raise when a workflow waits or is over. -/
def Hooks.Reserved (h : Hooks σ γ) : Listener → Prop
  | .manager _ => False
  | .observer l => ∀ event, event.kind.Closes → ¬h.Raises l event

/-- Before a manager there are but listeners that do not raise when a workflow waits or is over. -/
def Hooks.Ranks (h : Hooks σ γ) (audience : WorkflowId → List Listener) : Prop :=
  ∀ w, (audience w).Pairwise fun a b => b.isManager = true → h.Reserved a

namespace Engine

def audience (e : Engine σ) (w : WorkflowId) : List Listener := (e.workflow w).listeners

/-- The engines are the same but for the listeners from outside, which stand in that order in the first. -/
def Overhears (h : Hooks σ γ) (κ : σ → ρ) (e e' : Engine σ) : Prop :=
  e.Overheard κ e' ∧ h.Ranks e.audience

/-- A workflow may be started if nobody listens to it yet but those who may stand before a manager; a start
that is refused may be tried at any time. Other actions than those of workflows and managers are to be the
same whoever listens, and to keep the order. -/
def Admits (h : Hooks σ γ) (κ : σ → ρ) (e : Engine σ) : Operation σ γ → Prop
  | .start m w _ => ¬e.Refused m w → ∀ l ∈ e.audience w, h.Reserved l
  | .other action => ∀ e₁ e', Overhears h κ e₁ e' → Agree (Overhears h κ) Quietly action action e₁ e'
  | _ => True

/-! ## Engines without listeners -/

section Unheard

variable {e e' : Engine σ} {w : WorkflowId} {q : QueueId}

theorem workflow_unheard (e : Engine σ) (w : WorkflowId) :
    e.unheard.workflow w = (e.workflow w).unheard := by
  show (e.workflows.map _).getD w.index default = (e.workflows.getD w.index default).unheard
  rw [Array.getD_eq_getD_getElem?, Array.getD_eq_getD_getElem?, Array.getElem?_map]
  cases e.workflows[w.index]? <;> rfl

theorem queue_unheard (e : Engine σ) (q : QueueId) : e.unheard.queue q = (e.queue q).unheard := by
  show (e.queues.map _).getD q.index default = (e.queues.getD q.index default).unheard
  rw [Array.getD_eq_getD_getElem?, Array.getD_eq_getD_getElem?, Array.getElem?_map]
  cases e.queues[q.index]? <;> rfl

private theorem map_modify {α β : Type} {a : Array α} {i : Nat} {f : α → α} {g : α → β} {f' : β → β}
    {d : α} (h : g (f (a.getD i d)) = f' (g (a.getD i d))) :
    (a.modify i f).map g = (a.map g).modify i f' := by
  apply Array.ext_getElem?
  intro j
  rw [Array.getElem?_map, Array.getElem?_modify, Array.getElem?_modify, Array.getElem?_map]
  by_cases hij : i = j
  · subst hij
    rw [if_pos rfl, if_pos rfl]
    rw [Array.getD_eq_getD_getElem?] at h
    cases ha : a[i]? with
    | none => rfl
    | some x =>
      rw [ha] at h
      exact congrArg some h
  · rw [if_neg hij, if_neg hij]

theorem unheard_mapWorkflow {f f' : Workflow → Workflow}
    (h : (f (e.workflow w)).unheard = f' (e.workflow w).unheard) :
    (e.mapWorkflow w f).unheard = e.unheard.mapWorkflow w f' := by
  unfold unheard mapWorkflow
  rw [map_modify h]

theorem unheard_mapQueue {f f' : DecisionQueue → DecisionQueue}
    (h : (f (e.queue q)).unheard = f' (e.queue q).unheard) :
    (e.mapQueue q f).unheard = e.unheard.mapQueue q f' := by
  unfold unheard mapQueue
  rw [map_modify h]

theorem unheard_unheard (e : Engine σ) : e.unheard.unheard = e.unheard := by
  have hw : ∀ wf : Workflow, wf.unheard.unheard = wf.unheard := fun wf => by
    unfold Workflow.unheard
    rw [List.filter_filter]
    simp only [Bool.and_self]
  unfold unheard
  rw [Array.map_map, Array.map_map]
  congr 1
  exact congrArg (fun g => e.workflows.map g) (funext hw)

/-- An engine is overheard with itself, its listeners left out. -/
theorem overheard_unheard (κ : σ → ρ) (e : Engine σ) : e.Overheard κ e.unheard := by
  unfold Overheard
  rw [unheard_unheard]
  exact like_self (fun _ => rfl) ⟨rfl, rfl, rfl⟩

/-- What listeners keep to themselves makes no difference. -/
theorem Muttered.overheard {κ : σ → ρ} {e₁ : Engine σ} (hm : Muttered κ e e₁) (h : e.Overheard κ e') :
    e₁.Overheard κ e' := by
  obtain ⟨j, d, rfl, hd⟩ := hm
  obtain ⟨hclock, herrors, hhost⟩ := h.beyond
  exact { h with beyond := ⟨hclock, herrors, hd.trans hhost⟩ }

end Unheard

/-! ## What is overheard as a whole -/

section Whole

variable {κ : σ → ρ} {e e' : Engine σ}

theorem audience_mapWorkflow {w : WorkflowId} {f : Workflow → Workflow}
    (hf : (f (e.workflow w)).listeners = (e.workflow w).listeners) :
    (e.mapWorkflow w f).audience = e.audience :=
  funext (workflow_mapWorkflow_eq hf)

theorem Overheard.workflow (hm : e.Overheard κ e') (w : WorkflowId) :
    (e.workflow w).unheard.Like (.sharing κ) (e'.workflow w).unheard := by
  rw [← workflow_unheard, ← workflow_unheard]
  exact Like.workflow hm w

theorem Overheard.mapWorkflow {w : WorkflowId} {f f' : Workflow → Workflow} (hm : e.Overheard κ e')
    (g g' : Workflow → Workflow)
    (hf : (f (e.workflow w)).unheard = g (e.workflow w).unheard)
    (hf' : (f' (e'.workflow w)).unheard = g' (e'.workflow w).unheard)
    (hg : (g (e.workflow w).unheard).Like (.sharing κ) (g' (e'.workflow w).unheard)) :
    (e.mapWorkflow w f).Overheard κ (e'.mapWorkflow w f') := by
  unfold Overheard
  rw [unheard_mapWorkflow hf, unheard_mapWorkflow hf']
  rw [← workflow_unheard, ← workflow_unheard] at hg
  exact Like.mapWorkflow hm hg

/-- To be overheard is about all that engines have, together with whatever is said of who listens. -/
theorem overheard_whole (P : (WorkflowId → List Listener) → Prop) :
    Whole (.sharing κ) fun e e' : Engine σ => e.Overheard κ e' ∧ P e.audience where
  bond w :=
    { size := fun hm => hm.1.size
      step := fun hm _ _ => hm.1.step _
      workflow := fun hm => { hm.1.workflow w with }
      current := fun _ => trivial
      closed := fun _ _ _ _ _ => trivial
      aside := fun hm j j' => ⟨hm.1.aside j j', hm.2⟩
      now := fun hm => (Likeness.sharing κ).now hm.1.beyond
      ticked := fun hm j j' => ⟨hm.1.ticked j j', hm.2⟩
      mapStep := fun hm s hs f f' hf hf' hst => ⟨(like_bond w).mapStep hm.1 hs hf hf' hst, hm.2⟩
      mapWorkflow := fun {e e'} hm f f' hf hf' hw => by
        have hl : (f (e.workflow w)).listeners = (e.workflow w).listeners :=
          congrArg (·.2.2.2) (hf (e.workflow w))
        have hl' : (f' (e'.workflow w)).listeners = (e'.workflow w).listeners :=
          congrArg (·.2.2.2) (hf' (e'.workflow w))
        refine ⟨hm.1.mapWorkflow (fun _ => (f (e.workflow w)).unheard)
          (fun _ => (f' (e'.workflow w)).unheard) rfl rfl { hw with listeners := ?_ }, ?_⟩
        · show (f _).listeners.filter _ = (f' _).listeners.filter _
          rw [hl, hl']
          exact (hm.1.workflow w).listeners
        · rw [audience_mapWorkflow hl]
          exact hm.2
      go := fun {e e'} hm s t _ => by
        have hw := hm.1.workflow w
        have hbound : Like (.sharing κ) (e.unheard.mapStep t (·.boundTo (e.workflow w)))
            (e'.unheard.mapStep t (·.boundTo (e'.workflow w))) :=
          Like.mapStep hm.1 { Like.step hm.1 t with
            workflowId := congrArg some hw.id
            context := congrArg some hw.context } rfl rfl
        refine ⟨Overheard.mapWorkflow hbound (·.moved s t) (·.moved s t) rfl rfl
          { hw with current := rfl, previous := rfl }, ?_⟩
        rw [audience_mapWorkflow rfl]
        exact hm.2 }
  queued {e e'} hm q := by
    have hq := hm.1.queue q
    rw [queue_unheard, queue_unheard] at hq
    show (e.queue q).unheard.decisions = (e'.queue q).unheard.decisions
    rw [hq]
  manager hm m := hm.1.manager m
  mapQueue hm q f := by
    refine ⟨?_, hm.2⟩
    have hsame : ∀ e : Engine σ, (e.mapQueue q fun d => { d with decisions := f d.decisions }).unheard =
        e.unheard.mapQueue q fun d => { d with decisions := f d.decisions } := fun _ =>
      unheard_mapQueue rfl
    unfold Overheard
    rw [hsame, hsame]
    exact Like.mapQueue hm.1 q _
  mapManager hm m f := ⟨Like.mapManager hm.1 m f, hm.2⟩
  bind hm s id c := ⟨like_whole.bind hm.1 s id c, hm.2⟩
  identify hm w id := by
    refine ⟨hm.1.mapWorkflow ({ · with id }) ({ · with id }) rfl rfl
      { hm.1.workflow w with id := rfl }, ?_⟩
    rw [audience_mapWorkflow rfl]
    exact hm.2

end Whole

/-! ## Telling listeners -/

section Telling

variable {κ : σ → ρ} {h : Hooks σ γ} {e e₁ e' : Engine σ} {event : Event} {brief : Prop}

theorem Muttered.overhears (hm : Muttered κ e e₁) (ho : Overhears h κ e e') : Overhears h κ e₁ e' := by
  refine ⟨hm.overheard ho.1, ?_⟩
  obtain ⟨j, d, rfl, -⟩ := hm
  exact ho.2

theorem overhears_whole : Whole (.sharing κ) (Overhears h κ) := overheard_whole h.Ranks

theorem run_forM_of_error {ι : Type} {f : ι → Act σ Unit} {i : ι} {is : List ι} {x : Failure}
    (hr : (f i).run e = (.error x, e₁)) : ((i :: is).forM f).run e = (.error x, e₁) := by
  show (f i >>= fun _ => is.forM f).run e = _
  rw [run_bind, hr]

theorem run_forM_of_ok {ι : Type} {f : ι → Act σ Unit} {i : ι} {is : List ι} {u : Unit}
    (hr : (f i).run e = (.ok u, e₁)) : ((i :: is).forM f).run e = (is.forM f).run e₁ := by
  show (f i >>= fun _ => is.forM f).run e = _
  rw [run_bind, hr]

variable (hmut : h.Mutters κ)
include hmut

/-- Listeners of a queue may cut the operation short if they may raise. -/
theorem curtailed_observers (hraise : ∀ l, h.Raises l event → brief) (ls : List ListenerId)
    (hm : Overhears h κ e e') :
    Curtailed (Overhears h κ) Quietly (fun _ => brief) (ls.forM (h.observe · event)) (pure ()) e e' := by
  induction ls generalizing e with
  | nil => exact (agree_pure trivial hm).curtailed
  | cons l ls ih =>
    have hafter := hmut.apart l event e
    rcases hr : (h.observe l event).run e with ⟨x | u, e₁⟩
    all_goals rw [hr] at hafter
    · exact .inr ⟨x, e₁, (), e', run_forM_of_error hr, rfl, hraise l ⟨e, x, e₁, hr⟩, hafter.overhears hm⟩
    · exact (ih (hafter.overhears hm)).congr (run_forM_of_ok hr) rfl

theorem curtailed_emitQueue {q : QueueId} {s : StepId} {kind : EventKind}
    (hraise : ∀ l id, h.Raises l ⟨id, kind⟩ → brief) (hm : Overhears h κ e e') :
    Curtailed (Overhears h κ) Quietly (fun _ => brief) (emitQueue h q s kind) (emitQueue h.deaf q s kind)
      e e' := by
  have hdeaf : ∀ ls : List ListenerId, (ls.forM fun _ => pure () : Act σ Unit) = pure () := by
    intro ls
    induction ls with
    | nil => rfl
    | cons l ls ih => exact ih
  apply curtailed_get_bind
  show Curtailed _ _ _ _ ((e'.queue q).listeners.forM fun _ => pure ()) _ _
  rw [hdeaf]
  exact curtailed_observers hmut (fun l => hraise l _) _ hm

/-- Listeners of a workflow may cut the operation short if they may raise and none of those before a manager
does. -/
theorem curtailed_told {safe : Listener → Prop}
    (hmanage : ∀ m {e e'}, Overhears h κ e e' → Curtailed (Overhears h κ) Quietly (fun _ => brief)
      (manage h m event) (manage h.deaf m event) e e')
    (hraise : ∀ l, h.Raises l event → brief ∧ ¬safe (.observer l)) (hself : brief → ∀ m, ¬safe (.manager m))
    {ls : List Listener} (hranks : ls.Pairwise fun a b => b.isManager = true → safe a)
    (hm : Overhears h κ e e') :
    Curtailed (Overhears h κ) Quietly (fun _ => brief) (ls.forM (tell h event))
      ((ls.filter (·.isManager)).forM (tell h.deaf event)) e e' := by
  induction ls generalizing e e' with
  | nil => exact (agree_pure trivial hm).curtailed
  | cons a ls ih =>
    obtain ⟨hafter, hrest⟩ := List.pairwise_cons.mp hranks
    -- Behind one that is not safe there is no manager, so nothing is left to do.
    have hlast : ¬safe a → ls.filter (·.isManager) = [] := fun hn =>
      List.filter_eq_nil_iff.mpr fun b hb hman => hn (hafter b hb hman)
    cases a with
    | manager m =>
      refine (hmanage m hm).bind (fun _ _ _ _ _ hm => ih hrest hm) fun _ hbrief => ⟨(), ?_, hbrief⟩
      rw [hlast (hself hbrief m)]
      rfl
    | observer l =>
      have hmuttered := hmut.apart l event e
      rcases hr : (h.observe l event).run e with ⟨x | u, e₁⟩
      all_goals rw [hr] at hmuttered
      · obtain ⟨hbrief, hloud⟩ := hraise l ⟨e, x, e₁, hr⟩
        refine .inr ⟨x, e₁, (), e', run_forM_of_error hr, ?_, hbrief, hmuttered.overhears hm⟩
        rw [List.filter_cons_of_neg Bool.false_ne_true, hlast hloud]
        rfl
      · exact (ih hrest (hmuttered.overhears hm)).congr (run_forM_of_ok hr) rfl

omit hmut in
theorem tell_deaf (ls : List Listener) :
    ls.forM (tell h.deaf event) = (ls.filter (·.isManager)).forM (tell h.deaf event) := by
  induction ls with
  | nil => rfl
  | cons a ls ih =>
    show (tell h.deaf event a >>= fun _ => ls.forM (tell h.deaf event)) = _
    rw [ih]
    cases a <;> rfl

theorem curtailed_emit {w : WorkflowId} {kind : EventKind} {safe : Listener → Prop}
    (hmanage : ∀ m id {e e'}, Overhears h κ e e' → Curtailed (Overhears h κ) Quietly (fun _ => brief)
      (manage h m ⟨id, kind⟩) (manage h.deaf m ⟨id, kind⟩) e e')
    (hraise : ∀ l id, h.Raises l ⟨id, kind⟩ → brief ∧ ¬safe (.observer l))
    (hself : brief → ∀ m, ¬safe (.manager m))
    (hranks : (e.audience w).Pairwise fun a b => b.isManager = true → safe a) (hm : Overhears h κ e e') :
    Curtailed (Overhears h κ) Quietly (fun _ => brief) (emit h w kind) (emit h.deaf w kind) e e' := by
  have hw := hm.1.workflow w
  apply curtailed_get_bind
  show Curtailed _ _ _ _ ((e'.workflow w).listeners.forM (tell h.deaf ⟨(e'.workflow w).id, kind⟩)) _ _
  rw [tell_deaf, show (e'.workflow w).listeners.filter _ = _ from hw.listeners.symm,
    show (e'.workflow w).id = _ from hw.id.symm]
  exact curtailed_told hmut (fun m => hmanage m _) (fun l => hraise l _) hself hranks hm

/-- Hooks that are unaware of listeners agree with themselves where those are not heard. -/
theorem concord_deaf (hu : h.Unaware κ) : Concord (.sharing κ) True (Overhears h κ) h h.deaf := by
  have hkept : ∀ {α : Type} {V : α → α → Prop} {m : Act σ α} {e e' : Engine σ}, Overhears h κ e e' →
      m.Always (fun e e' => e'.core = e.core) →
      Agree (Overheard κ) V m m e e' → Agree (Overhears h κ) V m m e e' := by
    intro α V m e e' hm hquiet hagree
    refine hagree.and (P := fun e _ => h.Ranks e.audience) ?_
    have haudience : (m.run e).2.audience = e.audience :=
      funext fun w => congrArg Workflow.listeners (workflow_of_core (hquiet e) w)
    rw [haudience]
    exact hm.2
  have hremoved : ∀ q s n {e e' : Engine σ}, Overhears h κ e e' →
      Agree (Overhears h κ) Quietly (emitQueue h q s (.dequeued n)) (emitQueue h.deaf q s (.dequeued n))
        e e' := by
    intro q s n e e' hm
    have hemit : Curtailed (Overhears h κ) Quietly (fun _ => False) (emitQueue h q s (.dequeued n))
        (emitQueue h.deaf q s (.dequeued n)) e e' :=
      curtailed_emitQueue hmut (fun l id => hmut.removed l id n) hm
    exact hemit.agree fun _ => id
  have htold : ∀ q s kind {e e' : Engine σ}, Overhears h κ e e' →
      Curtailed (Overhears h κ) Quietly (fun _ => True) (emitQueue h q s kind) (emitQueue h.deaf q s kind)
        e e' := fun q s kind e e' hm => curtailed_emitQueue hmut (fun _ _ _ => trivial) hm
  exact
    { starting := fun s e e' hm => hkept hm (hu.quiet.starting s) (hu.starting s e e' hm.1)
      execute := fun s c e e' hm => hkept hm (hu.quiet.execute s c) (hu.execute s c e e' hm.1)
      present := fun s c e e' hm => hkept hm (hu.quiet.present s c) (hu.present s c e e' hm.1)
      opens := fun w kind hk e e' hm => by
        have hanyone : (e.audience w).Pairwise fun _ b => b.isManager = true → True :=
          List.pairwise_of_forall fun _ _ _ => trivial
        have hemit : Curtailed (Overhears h κ) Quietly (fun _ => False) (emit h w kind)
            (emit h.deaf w kind) e e' :=
          curtailed_emit hmut (fun m id e e' hm => (overhears_whole.manage_opens hm hk).curtailed)
            (fun l id hr => absurd hr (hmut.opens l _ hk)) False.elim hanyone hm
        exact hemit.agree fun _ => id
      closes := fun w kind hk e e' hm =>
        curtailed_emit hmut
          (fun m id e e' hm => overhears_whole.manage hremoved htold hm)
          (fun l id hr => ⟨trivial, fun hres => hres _ hk hr⟩) (fun _ _ => id) (hm.2 w) hm
      removed := hremoved
      told := htold
      room := rfl }

end Telling

end Engine

end ApprovalFlow
