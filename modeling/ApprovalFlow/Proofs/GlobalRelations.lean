import ApprovalFlow.Proofs.LocalRelations
import ApprovalFlow.Proofs.Operation

/-!
# Operations on engines that are related as a whole

A relation may be about all that two engines have, but for who listens to workflows and queues (`Whole`).
If the hooks do not upset it (`Concord`), the operations of workflows, queues and managers agree in both
engines, or are curtailed where a listener may raise in one of them. To be alike is such a relation
(`like_whole`).
-/

namespace ApprovalFlow.Engine

open Act

variable {σ τ γ : Type} {L : Likeness σ τ}

/-- The relation `M` is about all steps, workflows, queues and managers, and goes on to hold when they change
alike. -/
structure Whole (L : Likeness σ τ) (M : Engine σ → Engine τ → Prop) : Prop where
  bond : ∀ w, Bond L (fun _ => True) w M
  queued : ∀ {e e'}, M e e' → ∀ q, (e.queue q).decisions = (e'.queue q).decisions
  manager : ∀ {e e'}, M e e' → ∀ m, e.manager m = e'.manager m
  mapQueue : ∀ {e e'}, M e e' → ∀ q (f : List StepId → List StepId),
    M (e.mapQueue q fun d => { d with decisions := f d.decisions })
      (e'.mapQueue q fun d => { d with decisions := f d.decisions })
  mapManager : ∀ {e e'}, M e e' → ∀ m f, M (e.mapManager m f) (e'.mapManager m f)
  bind : ∀ {e e'}, M e e' → ∀ s id c,
    M (e.mapStep s ({ · with workflowId := some id, context := some c }))
      (e'.mapStep s ({ · with workflowId := some id, context := some c }))
  identify : ∀ {e e'}, M e e' → ∀ w id,
    M (e.mapWorkflow w ({ · with id })) (e'.mapWorkflow w ({ · with id }))

/-- The hooks agree, and so do the listeners, except that in the first engine those may raise where nothing is
left to do but to return. -/
structure Concord (L : Likeness σ τ) (brief : Prop) (M : Engine σ → Engine τ → Prop) (h : Hooks σ γ)
    (h' : Hooks τ γ) : Prop where
  starting : ∀ s {e e'}, M e e' → Agree M Quietly (h.starting s) (h'.starting s) e e'
  execute : ∀ s c {e e'}, M e e' → Agree M L.outcome (h.execute s c) (h'.execute s c) e e'
  present : ∀ s c {e e'}, M e e' → Agree M Quietly (h.present s c) (h'.present s c) e e'
  opens : ∀ w {kind}, kind.Opens → ∀ {e e'}, M e e' →
    Agree M Quietly (emit h w kind) (emit h' w kind) e e'
  closes : ∀ w {kind}, kind.Closes → ∀ {e e'}, M e e' →
    Curtailed M Quietly (fun _ => brief) (emit h w kind) (emit h' w kind) e e'
  removed : ∀ q s n {e e'}, M e e' →
    Agree M Quietly (emitQueue h q s (.dequeued n)) (emitQueue h' q s (.dequeued n)) e e'
  told : ∀ q s kind {e e'}, M e e' →
    Curtailed M Quietly (fun _ => brief) (emitQueue h q s kind) (emitQueue h' q s kind) e e'
  room : h.room = h'.room

theorem Concord.accord {brief : Prop} {M : Engine σ → Engine τ → Prop} {h : Hooks σ γ} {h' : Hooks τ γ}
    (hc : Concord L brief M h h') (w : WorkflowId) : Accord L (fun _ => True) w brief M h h' where
  starting _ := hc.starting _
  execute _ := hc.execute _
  present _ := hc.present _
  opens := hc.opens w
  closes := hc.closes w
  room := hc.room

namespace Whole

variable {M : Engine σ → Engine τ → Prop} {e : Engine σ} {e' : Engine τ} {s : StepId} {w : WorkflowId}
  {q : QueueId} {m : ManagerId} (hM : Whole L M)
include hM

theorem isQueued (hm : M e e') : isQueued e q s = isQueued e' q s := by
  unfold Engine.isQueued
  rw [hM.queued hm]

theorem running? (hm : M e e') (id : Int) : running? e m id = running? e' m id := by
  unfold Engine.running?
  rw [hM.manager hm]

theorem numberOf (hm : M e e') : Agree M Eq (numberOf s) (numberOf s) e e' :=
  (hM.bond default).numberOf trivial hm

/-! ## How a manager takes events -/

section Telling

variable {h : Hooks σ γ} {h' : Hooks τ γ} {brief : Prop}
  (hremoved : ∀ q s n {e e'}, M e e' →
    Agree M Quietly (emitQueue h q s (.dequeued n)) (emitQueue h' q s (.dequeued n)) e e')
  (htold : ∀ q s kind {e e'}, M e e' →
    Curtailed M Quietly (fun _ => brief) (emitQueue h q s kind) (emitQueue h' q s kind) e e') (hm : M e e')

include hm

include htold in
theorem enqueue : Curtailed M Quietly (fun _ => brief) (enqueue h q s) (enqueue h' q s) e e' := by
  apply curtailed_get_bind
  refine Curtailed.onlyIf (by rw [hM.isQueued hm]) (fun _ => ?_) hm
  refine Agree.bind_curtailed (agree_modify (hM.mapQueue hm q (· ++ [s]))) fun _ _ _ _ _ hm => ?_
  refine (hM.numberOf hm).bind_curtailed fun n n' _ _ hn hm => ?_
  subst hn
  apply curtailed_get_bind
  exact ((hM.bond default).note hm).bind_curtailed fun _ _ _ _ _ hm => htold q s _ hm

include hremoved in
theorem dequeue : Agree M Quietly (dequeue h q s) (dequeue h' q s) e e' := by
  apply agree_get_bind
  refine Agree.onlyIf (hM.isQueued hm) (fun _ => ?_) hm
  refine Agree.bind (agree_modify (hM.mapQueue hm q fun d => d.filter (· != s))) fun _ _ _ _ _ hm => ?_
  refine (hM.numberOf hm).bind fun n n' _ _ hn hm => ?_
  subst hn
  exact hremoved q s n hm

include htold in
theorem onWaiting :
    Curtailed M Quietly (fun _ => brief) (onWaiting h m w) (onWaiting h' m w) e e' := by
  apply curtailed_get_bind
  have hw := (hM.bond w).workflow hm
  have hcur : (e.workflow w).current? = (e'.workflow w).current? := by
    unfold Workflow.current?
    rw [hw.state, hw.current]
  rw [hcur, hM.manager hm]
  split
  · exact Curtailed.onlyIf ((hM.bond w).step hm trivial).isDecision (fun _ => hM.enqueue htold hm) hm
  · exact (agree_pure trivial hm).curtailed

include hremoved in
theorem onFinished : Agree M Quietly (onFinished h m w) (onFinished h' m w) e e' := by
  apply agree_get_bind
  dsimp only
  rw [hM.manager hm, hM.queued hm]
  refine (Agree.forM _ (fun t _ e e' hm => ?_) hm).bind fun _ _ e e' _ hm => ?_
  · apply agree_get_bind
    refine Agree.onlyIf ?_ (fun _ => hM.dequeue hremoved hm) hm
    rw [((hM.bond w).step hm trivial).workflowId, ((hM.bond w).workflow hm).id]
  · apply agree_get_bind
    dsimp only
    rw [hM.manager hm, ((hM.bond w).workflow hm).id]
    refine (agree_failIf rfl rfl hm).bind fun _ _ _ _ _ hm => ?_
    exact Agree.bind (agree_modify (hM.mapManager hm m _)) fun _ _ _ _ _ hm => (hM.bond w).note hm

include hremoved htold in
theorem manage {event : Event} :
    Curtailed M Quietly (fun _ => brief) (manage h m event) (manage h' m event) e e' := by
  apply curtailed_get_bind
  rw [hM.manager hm]
  split
  · exact (agree_pure trivial hm).curtailed
  split
  · exact hM.onWaiting htold hm
  · exact (hM.onFinished hremoved hm).curtailed
  · exact (hM.onFinished hremoved hm).curtailed
  · exact (agree_pure trivial hm).curtailed

/-- Of the events after which a workflow goes on a manager takes no notice. -/
theorem manage_opens {event : Event} (hk : event.kind.Opens) :
    Agree M Quietly (Engine.manage h m event) (Engine.manage h' m event) e e' := by
  apply agree_get_bind
  rw [hM.manager hm]
  split
  · exact agree_pure trivial hm
  rcases hk with hk | hk
  all_goals
    rw [hk]
    exact agree_pure trivial hm

end Telling

/-! ## Registering -/

section Registering

variable (hm : M e e')
include hm

theorem bindStep {id : Int} {c : ContextId} : Agree M Quietly (bindStep s id c) (bindStep s id c) e e' := by
  apply agree_get_bind
  have hs := (hM.bond default).step hm (s := s) trivial
  refine (agree_failIf (by rw [hs.isStarted, hs.context]) (by rw [hs.key]) hm).bind
    fun _ _ _ _ _ hm => ?_
  exact agree_modify (hM.bind hm s id c)

theorem assignId {id : Int} : Agree M Quietly (assignId w id) (assignId w id) e e' := by
  apply agree_get_bind
  have hw := (hM.bond w).workflow hm
  dsimp only
  rw [hw.state, hw.first, hw.context]
  refine (agree_failIf rfl rfl hm).bind fun _ _ _ _ _ hm => ?_
  exact Agree.bind (agree_modify (hM.identify hm w id)) fun _ _ _ _ _ hm => hM.bindStep hm

theorem takeId : Agree M Eq (takeId m) (takeId m) e e' := by
  apply agree_get_bind
  dsimp only
  rw [hM.manager hm]
  exact Agree.bind (agree_modify (hM.mapManager hm m _)) fun _ _ _ _ _ hm => agree_pure rfl hm

theorem accept : Agree M Quietly (accept m w) (accept m w) e e' := by
  apply agree_get_bind
  dsimp only
  rw [((hM.bond w).workflow hm).id, hM.manager hm]
  split
  · refine (hM.takeId hm).bind fun n n' _ _ hn hm => ?_
    subst hn
    exact hM.assignId hm
  · exact agree_failIf rfl rfl hm

end Registering

/-! ## Operations -/

/-- A start that is refused fails alike. -/
theorem startManaged_refused {h : Hooks σ γ} {h' : Hooks τ γ} {context : γ} (hr : e.Refused m w)
    (hm : M e e') :
    Agree M Eq (startManaged h m w context) (startManaged h' m w context) e e' := by
  have hw := (hM.bond w).workflow hm
  apply agree_get_bind
  dsimp only
  rw [← hw.state, ← hw.id]
  refine agree_failIf_bind rfl rfl hm fun hcreated => ?_
  -- The workflow is created, so that it is its id that is refused.
  obtain ⟨hid, hused⟩ := hr.resolve_left fun hne => hne (by simpa using hcreated)
  have haccept : Agree M (fun _ _ => False) (Engine.accept m w) (Engine.accept m w) e e' := by
    apply agree_get_bind
    dsimp only
    rw [← hw.id, ← hM.manager hm, if_neg hid]
    unfold failIf
    have htaken : (e.manager m).running.contains (e.workflow w).id = true := hused
    rw [if_neg hid, if_pos htaken, if_pos htaken]
    exact agree_throw _ hm
  exact haccept.bind fun _ _ _ _ hnone _ => hnone.elim

section Operations

variable {h : Hooks σ γ} {h' : Hooks τ γ} {brief : Prop} {context : γ}
  (hn : TakesErrors (fun _ => True) M) (hc : Concord L brief M h h')
include hc

theorem abort (hm : M e e') : Curtailed M Quietly (fun _ => brief) (abort h w) (abort h' w) e e' :=
  (hM.bond w).abort (hc.closes w) hm

theorem decideQueued {o o' : Outcome} (ho : L.outcome o o') (actor : Option Actor) (hm : M e e') :
    Agree M Quietly (decideQueued h q s o actor) (decideQueued h' q s o' actor) e e' :=
  (hM.bond default).decideQueued hM.isQueued trivial hm ho actor fun hm => hM.dequeue hc.removed hm

theorem reassignQueued (actor : Option Actor) (hm : M e e') :
    Curtailed M Quietly (fun _ => brief) (reassignQueued h q s actor) (reassignQueued h' q s actor) e e' := by
  refine ((hM.bond default).requireQueued hM.isQueued trivial hm).bind_curtailed fun _ _ e₁ e₁' _ hm => ?_
  apply curtailed_get_bind
  have hs := (hM.bond default).step hm (s := s) trivial
  refine ((hM.bond default).reassign trivial hm).bind_curtailed fun _ _ _ _ _ hm => ?_
  rw [hs.number, hs.actor]
  exact hc.told q s _ hm

include hn

theorem advance (hm : M e e') :
    Curtailed M Eq (fun _ => brief) (advance h w context) (advance h' w context) e e' :=
  (hM.bond w).advance hn (hc.accord w) hm

theorem decide {o o' : Outcome} {actor : Option Actor} (ho : L.outcome o o') (hm : M e e') :
    Curtailed M Eq (fun _ => brief) (decide h m s o actor context) (decide h' m s o' actor context)
      e e' := by
  apply curtailed_get_bind
  dsimp only
  rw [hM.running? hm, ((hM.bond default).step hm (s := s) trivial).workflowId, hM.manager hm]
  split
  · refine ((hM.numberOf hm).bind fun n n' _ _ hnum hm => ?_).curtailed
    subst hnum
    exact agree_throw _ hm
  · refine (hM.decideQueued hc ho actor hm).bind_curtailed fun _ _ _ _ _ hm => ?_
    exact hM.advance hn hc hm

/-- Starting agrees, or is curtailed at its end, if registering agrees. Until then more may hold between the
engines. -/
theorem startManaged {M₁ : Engine σ → Engine τ → Prop} (hM₁ : Whole L M₁)
    (himp : ∀ e e', M₁ e e' → M e e')
    (hregister : ∀ e e', M₁ e e' → Agree M Quietly (register m w) (register m w) e e') (hm : M₁ e e') :
    Curtailed M Eq (fun _ => brief) (startManaged h m w context) (startManaged h' m w context) e e' := by
  apply curtailed_get_bind
  have hw := (hM₁.bond w).workflow hm
  dsimp only
  rw [hw.state, hw.id]
  refine (agree_failIf rfl rfl hm).bind_curtailed_of_imp himp fun _ _ _ _ _ hm => ?_
  refine (hM₁.accept hm).bind_curtailed_of_imp himp fun _ _ e₁ e₁' _ hm => ?_
  exact (hregister e₁ e₁' hm).bind_curtailed fun _ _ _ _ _ hm => hM.advance hn hc hm

end Operations

end Whole

/-! ## Engines that are alike -/

section Alike

variable {h : Hooks σ γ} {h' : Hooks τ γ} {s : StepId} {w : WorkflowId} {q : QueueId} {m : ManagerId}
  {e : Engine σ} {e' : Engine τ}

/-- To be alike is about all that engines have, and about who listens. -/
theorem like_whole : Whole L (Like L) where
  bond := like_bond
  queued hl q := by rw [hl.queue]
  manager hl := hl.manager
  mapQueue hl q _ := hl.mapQueue q _
  mapManager hl := hl.mapManager
  bind hl s _ _ := hl.mapStep { hl.step s with workflowId := rfl, context := rfl } rfl rfl
  identify hl w _ := hl.mapWorkflow { hl.workflow w with id := rfl }

theorem agree_addSuccessor {o o' : Outcome} (h : Like L e e') (ho : L.outcome o o')
    (target : Option StepId) :
    Agree (Like L) Quietly (addSuccessor s o target) (addSuccessor s o' target) e e' :=
  agree_modify (h.mapStep { h.step s with
    successors := Successor.register_like (h.step s).successors ho target } rfl rfl)

/-- Errors may be noted alike if the likeness has the errors equal. -/
theorem takesErrors_like {L : Likeness σ σ} (herrors : ∀ {a a'}, L.beyond a a' → a.errors = a'.errors)
    (hset : ∀ {a a'} (errors : StepId → List String), L.beyond a a' →
      L.beyond { a with errors } { a' with errors }) : TakesErrors (fun _ => True) (Like L) := by
  intro e e' hl s _ text
  have hnoted : ∀ e : Engine σ,
      (e.mapStep s fun st => { st with errors := st.errors ++ [text] }).surroundings =
        { e.surroundings with errors := fun t =>
            if t = s ∧ e.HasStep s then e.surroundings.errors t ++ [text] else e.surroundings.errors t } := by
    intro e
    simp only [surroundings, step_mapStep]
    congr 1
    funext t
    split <;> rfl
  refine hl.mapStep_of_beyond { hl.step s with } ?_
  rw [hnoted e, hnoted e', ← herrors hl.beyond]
  simp only [hl.hasStep s]
  exact hset _ hl.beyond

section Telling

variable (ho : ObservesAlike L h h')
include ho

theorem agree_emitQueue {kind : EventKind} (hl : Like L e e') :
    Agree (Like L) Quietly (emitQueue h q s kind) (emitQueue h' q s kind) e e' := by
  apply agree_get_bind
  dsimp only
  rw [(hl.step s).workflowId, hl.queue]
  exact Agree.forM _ (fun l _ e e' hl => ho l _ e e' hl) hl

theorem agree_manage {event : Event} (hl : Like L e e') :
    Agree (Like L) Quietly (manage h m event) (manage h' m event) e e' := by
  have hmanage : Curtailed (Like L) Quietly (fun _ => False) (manage h m event) (manage h' m event) e e' :=
    like_whole.manage (fun _ _ _ _ _ => agree_emitQueue ho)
      (fun _ _ _ _ _ hl => (agree_emitQueue ho hl).curtailed) hl
  exact hmanage.agree fun _ => id

theorem agree_emit {kind : EventKind} (hl : Like L e e') :
    Agree (Like L) Quietly (emit h w kind) (emit h' w kind) e e' := by
  apply agree_get_bind
  dsimp only
  rw [(hl.workflow w).listeners, (hl.workflow w).id]
  refine Agree.forM _ (fun l _ e e' hl => ?_) hl
  cases l with
  | manager m => exact agree_manage ho hl
  | observer l => exact ho l _ _ _ hl

theorem agree_conclude (hl : Like L e e') :
    Agree (Like L) Eq (conclude h w s) (conclude h' w s) e e' := by
  have hconclude : Curtailed (Like L) Eq (fun p => False ∧ p ≠ .goOn) (conclude h w s) (conclude h' w s)
      e e' := (like_bond w).conclude (fun _ _ _ hl => (agree_emit ho hl).curtailed) hl trivial
  exact hconclude.agree fun _ => And.left

end Telling

theorem concord_of_matches (hh : h.Matches L h') : Concord L False (Like L) h h' where
  starting s _ _ hl := hh.starting s _ _ hl
  execute s c _ _ hl := hh.execute s c _ _ hl
  present s c _ _ hl := hh.present s c _ _ hl
  opens _ _ _ _ _ := agree_emit hh.observe
  closes _ _ _ _ _ hl := (agree_emit hh.observe hl).curtailed
  removed _ _ _ _ _ := agree_emitQueue hh.observe
  told _ _ _ _ _ hl := (agree_emitQueue hh.observe hl).curtailed
  room := hh.room

theorem agree_register (hl : Like L e e') :
    Agree (Like L) Quietly (register m w) (register m w) e e' := by
  apply agree_get_bind
  have hw := hl.workflow w
  dsimp only
  rw [hw.id]
  refine Agree.bind (agree_modify (hl.mapManager m _)) fun _ _ e e' _ hl => ?_
  refine Agree.bind (agree_modify (hl.mapWorkflow { hl.workflow w with listeners := ?_ }))
    fun _ _ _ _ _ hl => (like_bond w).note hl
  rw [(hl.workflow w).listeners]

end Alike

end ApprovalFlow.Engine
