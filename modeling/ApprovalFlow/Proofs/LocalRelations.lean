import ApprovalFlow.Proofs.EngineLikeness

/-!
# Relations about some steps and one workflow

A relation between two engines may be about some of the steps and one workflow. If it goes on to hold when
these change alike (`Bond`), what is done with the workflow and its steps agrees in both engines and leaves
the relation in place, as far as the hooks do: so it is with `Bond.advance` and `Bond.abort`. Where a listener
may raise in one of the engines when nothing is left to do but to return, the operation is curtailed there at
most. To be alike as a whole is such a relation, and one about all that the engines have (`like_whole`).
-/

namespace ApprovalFlow

open Act

variable {σ τ γ : Type} {L : Likeness σ τ}

def EventKind.Opens (kind : EventKind) : Prop := kind = .started ∨ kind = .running

/-- The events of a workflow after which nothing is left to do but to return. -/
def EventKind.Closes : EventKind → Prop
  | .waiting _ | .completed _ | .aborted _ => True
  | _ => False

def Step.ties (st : Step) : List String × List Successor × Bool × Option Int × Option ContextId :=
  (st.errors, st.successors, st.isDecision, st.workflowId, st.context)

def Workflow.ties (wf : Workflow) : Int × ContextId × StepId × List Listener :=
  (wf.id, wf.context, wf.current, wf.listeners)

namespace Engine

/-- The relation `M` makes the steps `mine` and the workflow `w` alike, and goes on to hold when they change
alike. -/
structure Bond (L : Likeness σ τ) (mine : StepId → Prop) (w : WorkflowId)
    (M : Engine σ → Engine τ → Prop) : Prop where
  size : ∀ {e e'}, M e e' → e.steps.size = e'.steps.size
  step : ∀ {e e'}, M e e' → ∀ {s}, mine s → Step.Like L (e.step s) (e'.step s)
  workflow : ∀ {e e'}, M e e' → Workflow.Akin L (e.workflow w) (e'.workflow w)
  current : ∀ {e e'}, M e e' → mine (e.workflow w).current
  closed : ∀ {e e'}, M e e' → ∀ {s}, mine s → ∀ t ∈ e.targets s, mine t
  aside : ∀ {e e'}, M e e' → ∀ j j', M (e.aside j e.clock) (e'.aside j' e'.clock)
  now : ∀ {e e'}, M e e' → L.time e.clock.now e'.clock.now
  ticked : ∀ {e e'}, M e e' → ∀ j j', M (e.aside j e.clock.tick) (e'.aside j' e'.clock.tick)
  mapStep : ∀ {e e'}, M e e' → ∀ {s}, mine s → ∀ {f f' : Step → Step},
    (∀ st, (f st).ties = st.ties) → (∀ st, (f' st).ties = st.ties) →
    Step.Like L (f (e.step s)) (f' (e'.step s)) → M (e.mapStep s f) (e'.mapStep s f')
  mapWorkflow : ∀ {e e'}, M e e' → ∀ {f f' : Workflow → Workflow},
    (∀ wf, (f wf).ties = wf.ties) → (∀ wf, (f' wf).ties = wf.ties) →
    Workflow.Akin L (f (e.workflow w)) (f' (e'.workflow w)) → M (e.mapWorkflow w f) (e'.mapWorkflow w f')
  go : ∀ {e e'}, M e e' → ∀ s {t}, mine t →
    M ((e.mapStep t (·.boundTo (e.workflow w))).mapWorkflow w (·.moved s t))
      ((e'.mapStep t (·.boundTo (e'.workflow w))).mapWorkflow w (·.moved s t))

/-- To be alike is about all steps and any workflow. -/
theorem like_bond (w : WorkflowId) : Bond L (fun _ => True) w (Like L) where
  size hl := hl.size
  step hl _ _ := hl.step _
  workflow hl := (hl.workflow w).akin
  current _ := trivial
  closed _ _ _ _ _ := trivial
  aside hl := hl.aside
  now hl := L.now hl.beyond
  ticked hl := hl.ticked
  mapStep hl _ _ _ _ hf hf' hs :=
    hl.mapStep hs (congrArg Prod.fst (hf _)) (congrArg Prod.fst (hf' _))
  mapWorkflow {e e'} hl f f' hf hf' hw := by
    refine hl.mapWorkflow { hw with listeners := ?_ }
    have hties : (f (e.workflow w)).listeners = (e.workflow w).listeners :=
      congrArg (·.2.2.2) (hf (e.workflow w))
    have hties' : (f' (e'.workflow w)).listeners = (e'.workflow w).listeners :=
      congrArg (·.2.2.2) (hf' (e'.workflow w))
    rw [hties, hties', (hl.workflow w).listeners]
  go {e e'} hl s t _ := by
    have hw := hl.workflow w
    have hbound : Like L (e.mapStep t (·.boundTo (e.workflow w)))
        (e'.mapStep t (·.boundTo (e'.workflow w))) :=
      hl.mapStep { hl.step t with
        workflowId := congrArg some hw.id
        context := congrArg some hw.context } rfl rfl
    exact hbound.mapWorkflow { hw with current := rfl, previous := rfl }

def TakesErrors (mine : StepId → Prop) (M : Engine σ → Engine τ → Prop) : Prop :=
  ∀ {e e'}, M e e' → ∀ {s}, mine s → ∀ text,
    M (e.mapStep s fun st => { st with errors := st.errors ++ [text] })
      (e'.mapStep s fun st => { st with errors := st.errors ++ [text] })

/-- The hooks agree when they are called for the workflow and its steps. What is told of the workflow last
may be curtailed if `brief` holds. -/
structure Accord (L : Likeness σ τ) (mine : StepId → Prop) (w : WorkflowId) (brief : Prop)
    (M : Engine σ → Engine τ → Prop) (h : Hooks σ γ) (h' : Hooks τ γ) : Prop where
  starting : ∀ {s}, mine s → ∀ {e e'}, M e e' →
    Agree M Quietly (h.starting s) (h'.starting s) e e'
  execute : ∀ {s}, mine s → ∀ c {e e'}, M e e' →
    Agree M L.outcome (h.execute s c) (h'.execute s c) e e'
  present : ∀ {s}, mine s → ∀ c {e e'}, M e e' →
    Agree M Quietly (h.present s c) (h'.present s c) e e'
  opens : ∀ {kind}, kind.Opens → ∀ {e e'}, M e e' →
    Agree M Quietly (emit h w kind) (emit h' w kind) e e'
  closes : ∀ {kind}, kind.Closes → ∀ {e e'}, M e e' →
    Curtailed M Quietly (fun _ => brief) (emit h w kind) (emit h' w kind) e e'
  room : h.room = h'.room

/-- Steps that are alike have the same number, or none. -/
theorem agree_numberOf {M : Engine σ → Engine τ → Prop} {s : StepId} {e : Engine σ} {e' : Engine τ}
    (hs : Step.Like L (e.step s) (e'.step s)) (hm : M e e') :
    Agree M Eq (numberOf s) (numberOf s) e e' := by
  apply agree_get_bind
  dsimp only
  rw [hs.decision, hs.kind]
  split
  · exact agree_pure rfl hm
  · exact agree_throw _ hm

namespace Bond

variable {mine : StepId → Prop} {w : WorkflowId} {M : Engine σ → Engine τ → Prop} {s t : StepId}
  {e : Engine σ} {e' : Engine τ} (hb : Bond L mine w M)
include hb

/-! ## Changes -/

theorem note {logger logger' : String} {level level' : Logging.Level} {text text' : String}
    {extras extras' : Entries String Value} (hm : M e e') :
    Agree M Quietly (note logger level text extras) (note logger' level' text' extras') e e' :=
  agree_modify (hb.aside hm _ _)

theorem readClock (hm : M e e') : Agree M L.time readClock readClock e e' :=
  ⟨hb.now hm, hb.ticked hm _ _⟩

theorem updateStep {f f' : Step → Step} (hs : mine s) (hm : M e e')
    (hl : ∀ a b, Step.Like L a b → Step.Like L (f a) (f' b)) (hf : ∀ st, (f st).ties = st.ties)
    (hf' : ∀ st, (f' st).ties = st.ties) :
    Agree M Quietly (updateStep s f) (updateStep s f') e e' :=
  agree_modify (hb.mapStep hm hs hf hf' (hl _ _ (hb.step hm hs)))

theorem updateWorkflow {f f' : Workflow → Workflow} (hm : M e e')
    (hl : ∀ a b, Workflow.Akin L a b → Workflow.Akin L (f a) (f' b)) (hf : ∀ wf, (f wf).ties = wf.ties)
    (hf' : ∀ wf, (f' wf).ties = wf.ties) :
    Agree M Quietly (updateWorkflow w f) (updateWorkflow w f') e e' :=
  agree_modify (hb.mapWorkflow hm hf hf' (hl _ _ (hb.workflow hm)))

/-! ## Steps -/

section Steps

variable (hs : mine s) (hm : M e e')
include hs hm

theorem numberOf : Agree M Eq (numberOf s) (numberOf s) e e' := agree_numberOf (hb.step hm hs) hm

theorem moveStep {next : StepState} : Agree M Quietly (moveStep s next) (moveStep s next) e e' := by
  apply agree_get_bind
  have hst := hb.step hm hs
  refine (agree_failIf (by rw [hst.state]) (by rw [hst.state, hst.key]) hm).bind fun _ _ _ _ _ hm => ?_
  exact hb.updateStep hs hm (fun _ _ h => { h with state := rfl }) (fun _ => rfl) fun _ => rfl

theorem startStep : Agree M Quietly (startStep s) (startStep s) e e' := by
  apply agree_get_bind
  have hst := hb.step hm hs
  refine (agree_failIf hst.isStarted (by rw [hst.key]) hm).bind fun _ _ _ _ _ hm => ?_
  refine (hb.moveStep hs hm).bind fun _ _ _ _ _ hm => (hb.readClock hm).bind fun _ _ _ _ ht hm => ?_
  refine Agree.bind (hb.updateStep hs hm (fun _ _ h => { h with startTime := ht }) (fun _ => rfl)
    fun _ => rfl) fun _ _ _ _ _ hm => hb.note hm

theorem completeStep : Agree M Quietly (completeStep s) (completeStep s) e e' := by
  refine (hb.moveStep hs hm).bind fun _ _ _ _ _ hm => (hb.readClock hm).bind fun _ _ _ _ ht hm => ?_
  exact hb.updateStep hs hm (fun _ _ h => { h with endTime := ht }) (fun _ => rfl) fun _ => rfl

theorem setOutcome {o o' : Outcome} (ho : L.outcome o o') :
    Agree M Quietly (setOutcome s o) (setOutcome s o') e e' := by
  apply agree_get_bind
  have hst := hb.step hm hs
  have hkey := L.key ho
  refine (agree_failIf hst.isCompleted ?_ hm).bind fun _ _ _ _ _ hm => ?_
  · rw [hst.key, L.key hst.outcome]
  refine (agree_failIf ?_ ?_ hm).bind fun _ _ _ _ _ hm => ?_
  · rw [hst.permits hkey]
  · rw [hkey, hst.key]
  refine (Agree.onlyIf (L.completion ho) (fun _ => hb.completeStep hs hm) hm).bind fun _ _ _ _ _ hm => ?_
  refine Agree.bind (hb.updateStep hs hm (fun _ _ h => { h with outcome := ho }) (fun _ => rfl)
    fun _ => rfl) fun _ _ _ _ _ hm => hb.note hm

theorem startHooked : Agree M Quietly (startHooked s) (startHooked s) e e' := by
  apply agree_get_bind
  have hst := hb.step hm hs
  refine (agree_failIf (by rw [hst.isDecision, hst.actor]) (by rw [hst.key]) hm).bind
    fun _ _ _ _ _ hm => ?_
  exact hb.startStep hs hm

theorem notePresented : Agree M Quietly (notePresented s) (notePresented s) e e' := by
  have hties : ∀ st : Step, ({ st with
      decision := st.decision.map fun d => { d with begun := true } } : Step).ties = st.ties :=
    fun st => by simp only [Step.ties, Step.isDecision, Option.isSome_map]
  refine Agree.bind (hb.updateStep hs hm (fun _ _ h => { h with decision := ?_ }) hties hties)
    fun _ _ _ _ _ hm => agree_get_bind (hb.note hm)
  rw [h.decision]

theorem giveResult {o o' : Outcome} (ho : L.outcome o o') :
    Agree M Quietly (giveResult s o) (giveResult s o') e e' := by
  apply agree_get_bind
  refine Agree.onlyIf ?_ (fun _ => hb.setOutcome hs hm ho) hm
  rw [(hb.step hm hs).isCompleted, Outcome.same_congr (L.key ho) rfl]

theorem resolve {o o' : Outcome} (ho : L.outcome o o') :
    Agree M Quietly (resolve s o) (resolve s o') e e' := by
  apply agree_get_bind
  have hst := hb.step hm hs
  have hkey := L.key ho
  refine (agree_failIf (by rw [hst.isDecision]) (by rw [hst.kind]) hm).bind fun _ _ _ _ _ hm => ?_
  refine (agree_failIf ?_ (by rw [hkey, hst.key]) hm).bind fun _ _ _ _ _ hm => ?_
  · rw [hst.offers hkey, Outcome.same_congr hkey rfl]
  exact (hb.setOutcome hs hm ho).bind fun _ _ _ _ _ hm => hb.note hm

theorem reassign {actor : Option Actor} : Agree M Quietly (reassign s actor) (reassign s actor) e e' := by
  apply agree_get_bind
  have hst := hb.step hm hs
  refine (agree_failIf (by rw [hst.isDecision]) (by rw [hst.kind]) hm).bind fun _ _ _ _ _ hm => ?_
  refine (agree_failIf (by rw [hst.isReassignable]) (by rw [hst.key]) hm).bind fun _ _ _ _ _ hm => ?_
  refine (agree_failIf hst.isCompleted (by rw [hst.key]) hm).bind fun _ _ _ _ _ hm => ?_
  refine (hb.note hm).bind fun _ _ _ _ _ hm => ?_
  exact hb.updateStep hs hm (fun _ _ h => { h with actor := rfl }) (fun _ => rfl) fun _ => rfl

end Steps

/-! ## Queued decisions -/

section Queues

variable {h : Hooks σ γ} {h' : Hooks τ γ} {q : QueueId}
  (hqueued : ∀ {e e'}, M e e' → isQueued e q s = isQueued e' q s) (hs : mine s) (hm : M e e')
include hqueued hs hm

theorem requireQueued : Agree M Quietly (requireQueued q s) (requireQueued q s) e e' := by
  apply agree_get_bind
  rw [hqueued hm]
  split
  · refine (hb.numberOf hs hm).bind fun n _ _ _ hn hm => ?_
    subst hn
    exact agree_throw _ hm
  · exact agree_pure trivial hm

theorem decideQueued {o o' : Outcome} (ho : L.outcome o o') (actor : Option Actor)
    (hdequeue : ∀ {e e'}, M e e' → Agree M Quietly (dequeue h q s) (dequeue h' q s) e e') :
    Agree M Quietly (decideQueued h q s o actor) (decideQueued h' q s o' actor) e e' := by
  refine (hb.requireQueued hqueued hs hm).bind fun _ _ _ _ _ hm => ?_
  apply agree_get_bind
  have hactor := (hb.step hm hs).actor
  refine (agree_failIf (by rw [hactor]) (by rw [hactor]) hm).bind fun _ _ _ _ _ hm => ?_
  refine (hb.resolve hs hm ho).bind fun _ _ _ _ _ hm => ?_
  exact agree_get_bind (Agree.onlyIf (hb.step hm hs).isCompleted (fun _ => hdequeue hm) hm)

end Queues

/-! ## Turns -/

section Turns

variable {h : Hooks σ γ} {h' : Hooks τ γ} {brief : Prop}
  (hopens : ∀ {kind}, kind.Opens → ∀ {e e'}, M e e' →
    Agree M Quietly (emit h w kind) (emit h' w kind) e e')
  (hcloses : ∀ {kind}, kind.Closes → ∀ {e e'}, M e e' →
    Curtailed M Quietly (fun _ => brief) (emit h w kind) (emit h' w kind) e e') (hm : M e e')

include hm in
theorem moveWorkflow {next : WorkflowState} :
    Agree M Quietly (moveWorkflow w next) (moveWorkflow w next) e e' := by
  apply agree_get_bind
  have hw := hb.workflow hm
  refine (agree_failIf (by rw [hw.state]) (by rw [hw.state]) hm).bind fun _ _ _ _ _ hm => ?_
  refine Agree.bind (hb.updateWorkflow hm (fun _ _ h => { h with state := rfl }) (fun _ => rfl)
    fun _ => rfl) fun _ _ _ _ _ hm => hb.note hm

include hm in
theorem record : Agree M Quietly (record w s) (record w s) e e' :=
  hb.updateWorkflow hm (fun _ _ h => { h with history := by rw [h.history] }) (fun _ => rfl) fun _ => rfl

include hm in
/-- The successor is bound, and the workflow goes on to it. -/
theorem follow (hs : mine s) (ht : mine t) (o o' : Outcome) :
    Agree M Quietly (follow w s t o) (follow w s t o') e e' := by
  have hst := hb.step hm hs
  have htt := hb.step hm ht
  have hw := hb.workflow hm
  unfold Engine.follow bindStep
  simp only [bind_assoc]
  apply agree_get_bind
  refine agree_failIf_bind htt.isCompleted (by rw [htt.key, hst.key]) hm fun _ => ?_
  apply agree_get_bind
  refine agree_failIf_bind ?_ (by rw [htt.key]) hm fun _ => ?_
  · rw [htt.isStarted, htt.context, hw.context]
  exact agree_modify_bind (agree_modify_bind (hb.note (hb.go hm s ht)))

include hopens hm in
/-- What comes before the first turn agrees. -/
theorem enter : Agree M Eq (enter h w) (enter h' w) e e' := by
  apply agree_get_bind
  have hw := hb.workflow hm
  refine agree_failIf_bind (by rw [hw.state]) (by rw [hw.id, hw.state]) hm fun _ => ?_
  rw [hw.state, (hb.step hm (hb.current hm)).isCompleted, hw.current]
  split
  · split
    · refine (hb.moveWorkflow hm).bind fun _ _ _ _ _ hm => ?_
      exact (hopens (.inr rfl) hm).bind fun _ _ _ _ _ hm => agree_pure rfl hm
    · exact agree_pure rfl hm
  · refine (hb.moveWorkflow hm).bind fun _ _ _ _ _ hm => ?_
    refine (hb.readClock hm).bind fun _ _ _ _ ht hm => ?_
    refine Agree.bind (hb.updateWorkflow hm (fun _ _ h => { h with startTime := ht }) (fun _ => rfl)
      fun _ => rfl) fun _ _ _ _ _ hm => ?_
    exact (hopens (.inl rfl) hm).bind fun _ _ _ _ _ hm => agree_pure rfl hm
  · exact agree_pure rfl hm

include hcloses hm

theorem finish {next : WorkflowState} {kind : EventKind} (hk : kind.Closes) :
    Curtailed M Quietly (fun _ => brief) (finish h w next kind) (finish h' w next kind) e e' := by
  refine (hb.moveWorkflow hm).bind_curtailed fun _ _ _ _ _ hm => ?_
  refine (hb.readClock hm).bind_curtailed fun _ _ _ _ ht hm => ?_
  refine Agree.bind_curtailed (hb.updateWorkflow hm (fun _ _ h => { h with endTime := ht }) (fun _ => rfl)
    fun _ => rfl) fun _ _ _ _ _ hm => ?_
  exact hcloses hk hm

/-- A traversal may be curtailed where it stops. -/
theorem leave (hs : mine s) :
    Curtailed M Eq (fun p => brief ∧ p ≠ .goOn) (leave h w s) (leave h' w s) e e' := by
  refine (hb.record hm).bind_curtailed fun _ _ e e' _ hm => ?_
  apply curtailed_get_bind
  dsimp only
  have hst := hb.step hm hs
  have hkey := L.key hst.outcome
  rw [Outcome.same_congr (p := .abort) hkey rfl, hkey, ← hst.next? hkey]
  split
  · exact (hb.finish hcloses hm (by trivial)).bind (fun _ _ _ _ _ hm => (agree_pure rfl hm).curtailed)
      fun _ hbrief => ⟨_, rfl, hbrief, nofun⟩
  split
  · exact (hb.finish hcloses hm (by trivial)).bind (fun _ _ _ _ _ hm => (agree_pure rfl hm).curtailed)
      fun _ hbrief => ⟨_, rfl, hbrief, nofun⟩
  · rename_i t ht
    have htm := hb.closed hm hs t (mem_targets_of_next? ht)
    exact ((hb.follow hm hs htm _ _).bind fun _ _ _ _ _ hm => agree_pure rfl hm).curtailed

theorem pause (hs : mine s) :
    Curtailed M Eq (fun p => brief ∧ p ≠ .goOn) (pause h w s) (pause h' w s) e e' := by
  apply curtailed_get_bind
  dsimp only
  have hst := hb.step hm hs
  rw [hst.isDecision, hst.number]
  split
  · refine (hb.moveWorkflow hm).bind_curtailed fun _ _ _ _ _ hm => ?_
    have hwaiting : EventKind.Closes (.waiting (e'.step s).number) := trivial
    exact (hcloses hwaiting hm).bind (fun _ _ _ _ _ hm => (agree_pure rfl hm).curtailed)
      fun _ hbrief => ⟨_, rfl, hbrief, nofun⟩
  · exact (agree_pure rfl hm).curtailed

theorem conclude (hs : mine s) :
    Curtailed M Eq (fun p => brief ∧ p ≠ .goOn) (conclude h w s) (conclude h' w s) e e' := by
  apply curtailed_get_bind
  rw [(hb.step hm hs).isCompleted]
  split
  · exact hb.leave hcloses hm hs
  · exact hb.pause hcloses hm hs

/-- Aborting agrees, or is curtailed at its end. -/
theorem abort : Curtailed M Quietly (fun _ => brief) (abort h w) (abort h' w) e e' := by
  apply curtailed_get_bind
  have hw := hb.workflow hm
  have hs := hb.current hm
  refine (agree_failIf (by rw [hw.state]) (by rw [hw.id, hw.state]) hm).bind_curtailed
    fun _ _ e₁ e₁' _ hm₁ => ?_
  dsimp only
  rw [(hb.step hm hs).isCompleted, hw.history, ← hw.current]
  refine (Agree.onlyIf rfl (fun _ => hb.setOutcome hs hm₁ (L.outcome_refl .abort)) hm₁).bind_curtailed
    fun _ _ _ _ _ hm => ?_
  refine (Agree.onlyIf rfl (fun _ => hb.record hm) hm).bind_curtailed fun _ _ _ _ _ hm => ?_
  exact hb.finish hcloses hm trivial

end Turns

/-! ## Driving -/

section Driving

variable {h : Hooks σ γ} {h' : Hooks τ γ} {context : γ} (hn : TakesErrors mine M)
  {brief : Prop} (hh : Accord L mine w brief M h h')

include hn in
/-- A failure is noted on the step in both engines, or in neither. -/
theorem guarding {α β : Type} {V : α → β → Prop} {n : Act σ α} {n' : Act τ β} (hs : mine s)
    (ha : Agree M V n n' e e') : Agree M V (guarding w s n) (guarding w s n') e e' := by
  refine ha.tryCatch fun x e e' hm => ?_
  split
  · refine agree_modify_bind (agree_get_bind ?_)
    exact (hb.note (hn hm hs _)).bind fun _ _ _ _ _ hm => agree_throw x hm
  · exact agree_throw x hm

include hh

theorem start (hs : mine s) (hm : M e e') : Agree M Quietly (start h s) (start h' s) e e' := by
  rw [start_eq, start_eq]
  exact (hh.starting hs hm).bind fun _ _ _ _ _ hm => hb.startHooked hs hm

theorem execute (hs : mine s) (hm : M e e') :
    Agree M L.outcome (execute h s context) (execute h' s context) e e' := by
  apply agree_get_bind
  rw [(hb.step hm hs).isDecision]
  split
  · have hp : Agree M Quietly (presentDecision h s context) (presentDecision h' s context) e e' := by
      rw [presentDecision_eq, presentDecision_eq]
      exact (hh.present hs context hm).bind fun _ _ _ _ _ hm => hb.notePresented hs hm
    exact hp.bind fun _ _ _ _ _ hm => agree_pure (L.outcome_refl .proceed) hm
  · exact hh.execute hs context hm

include hn

theorem runStep (hs : mine s) (hm : M e e') :
    Agree M Quietly (runStep h w s context) (runStep h' w s context) e e' := by
  apply agree_get_bind
  have hst := hb.step hm hs
  refine (Agree.onlyIf (by rw [hst.isStarted]) (fun _ => hb.guarding hn hs (hb.start hh hs hm)) hm).bind
    fun _ _ _ _ _ hm => ?_
  refine Agree.onlyIf (by rw [hst.isStarted, hst.isPending]) (fun _ => ?_) hm
  rw [executeStep_eq, executeStep_eq]
  exact (hb.guarding hn hs (hb.execute hh hs hm)).bind fun _ _ _ _ ho hm => hb.giveResult hs hm ho

theorem turn (hm : M e e') :
    Curtailed M Eq (fun p => brief ∧ p ≠ .goOn) (turn h w context) (turn h' w context) e e' := by
  rw [turn_eq, turn_eq]
  apply curtailed_get_bind
  apply curtailed_get_bind
  have hs := hb.current hm
  rw [← (hb.workflow hm).current]
  refine (Agree.onlyIf (by rw [(hb.step hm hs).isCompleted])
    (fun _ => hb.runStep hn hh hs hm) hm).bind_curtailed fun _ _ _ _ _ hm => ?_
  exact hb.conclude hh.closes hm hs

theorem process (hm : M e e') :
    Curtailed M Eq (fun _ => brief) (process h w context) (process h' w context) e e' := by
  apply curtailed_get_bind
  rw [hb.size hm, hh.room]
  -- By induction on the turns that are left: each turn agrees, or is curtailed where it stops.
  generalize e'.steps.size + 1 + h'.room = turns
  induction turns generalizing e e' with
  | zero => exact (agree_throw _ hm).curtailed
  | succ turns ih =>
    refine (hb.turn hn hh hm).bind (fun progress _ e e' hp hm => ?_) fun progress hp => ?_
    · subst hp
      cases progress with
      | stop state => exact (agree_pure rfl hm).curtailed
      | goOn => exact ih hm
    · cases progress with
      | stop state => exact ⟨state, rfl, hp.1⟩
      | goOn => exact absurd rfl hp.2

/-- Advancing agrees, or is curtailed at its end. -/
theorem advance (hm : M e e') :
    Curtailed M Eq (fun _ => brief) (advance h w context) (advance h' w context) e e' := by
  rw [advance_eq_enter, advance_eq_enter]
  refine (hb.enter hh.opens hm).bind_curtailed fun goes _ _ _ hg hm => ?_
  subst hg
  cases goes with
  | true => exact hb.process hn hh hm
  | false => exact (agree_pure rfl hm).curtailed

end Driving

end Bond

end Engine

end ApprovalFlow
