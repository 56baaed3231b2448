import ApprovalFlow.Proofs.ListenerStreams
import ApprovalFlow.Proofs.Operation

/-!
# The events of a workflow are its history

Hooks may call the engine again, on any workflow and several levels deep (`Attentive`), as long as they
leave the listeners of the workflow alone. Whatever they do, and however the operations of a run end, all
listeners hear one stream of events, and this is a chronicle of the workflow up to the state that it is in
(`informed_throughout`): each move of the workflow is told before anything else can happen to it.
-/

namespace ApprovalFlow.Audience

open Act Engine

variable {σ γ α : Type} {A : Audience σ} {h : Hooks σ γ} {e e' : Engine σ} {s : StepId} {v : WorkflowId}
  {m : ManagerId} {q : QueueId} {context : γ}

/-! ## Moves of the workflow -/

theorem Attended.mapWorkflow {f : Workflow → Workflow} (ha : A.Attended e)
    (hi : A.Informed ⟨(f (e.workflow A.workflow)).state, (f (e.workflow A.workflow)).id, A.heard e.host⟩)
    (hf : A.Fronts (f (e.workflow A.workflow)).listeners) :
    A.Attended (e.mapWorkflow A.workflow f) := by
  have hwf := workflow_mapWorkflow_self f ha.hasWorkflow
  refine ⟨(hasWorkflow_mapWorkflow ..).mpr ha.hasWorkflow, hwf ▸ hf, fun u hu => ?_, ?_, ha.views⟩
  · rw [workflow_mapWorkflow_of_ne u f hu]
    exact ha.elsewhere u hu
  · exact hi.congr (congrArg Workflow.state hwf) (congrArg Workflow.id hwf) fun _ _ => rfl

theorem record_keeps : (record A.workflow s : Act σ Unit).Always A.Keeps := by
  intro e ha
  have hcur := congrArg Workflow.current (workflow_mapWorkflow_self (·.left s) ha.hasWorkflow)
  exact ⟨⟨ha.mapWorkflow ha.informed ha.fronts, fun _ => id⟩, .inr hcur⟩

/-- To go on from a completed step leaves the audience informed. -/
theorem follow_informs (ha : A.Attended e) (t : StepId) (o : Outcome) :
    (follow A.workflow s t o).Ends e (fun _ => A.Follows e) (fun _ => A.Follows e) := by
  simp only [follow, ends_bind, ends_get, ends_failIf, ends_bindStep, ends_updateWorkflow, ends_note]
  split
  · exact ha.reaches.toFollows
  split
  · exact ha.reaches.toFollows
  have hbound : A.Reaches e (e.mapStep t (·.boundTo (e.workflow A.workflow))) :=
    keeps_mapStep (·.boundTo (e.workflow A.workflow)) id ha
  have hmoved : A.Attended ((e.mapStep t (·.boundTo (e.workflow A.workflow))).mapWorkflow A.workflow
      (·.moved s t)) :=
    hbound.attended.mapWorkflow hbound.attended.informed hbound.attended.fronts
  exact ⟨(bears_keeps.aside _ _ rfl hmoved).attended, hbound.done⟩

section Moving

variable (hl : A.Listens h)
include hl

/-- The workflow ends and its listeners are told, if it may end at all. -/
theorem finish_keeps {next : WorkflowState} {kind : EventKind}
    (hk : ∀ st : WorkflowState, st.allows next = true → st.after? kind = some next)
    (hlast : kind.isLast = true) : (finish h A.workflow next kind).Always A.Keeps := by
  intro e ha
  refine Ends.state (P := A.Reaches e) ?_
  cases hs : (e.workflow A.workflow).state.allows next
  case true =>
    refine ends_finish next kind hs fun e₁ h₁ _ => ?_
    refine emit_informs hl ha (f := (·.ended next e.clock.now)) rfl (hk _ hs) ?_ h₁
    rintro n rfl
    contradiction
  case false =>
    simp only [finish, moveWorkflow, ends_bind, ends_get, ends_failIf, hs]
    exact ha.reaches

theorem aborting_keeps (o : Outcome) : (finish h A.workflow .aborted (.aborted o.key)).Always A.Keeps :=
  finish_keeps hl (fun st hst => by cases st <;> first | rfl | contradiction) rfl

theorem completing_keeps (o : Outcome) :
    (finish h A.workflow .completed (.completed o.key)).Always A.Keeps :=
  finish_keeps hl (fun st hst => by cases st <;> first | rfl | contradiction) rfl

/-- The listeners are told that the workflow waits for the decision that it is on. -/
theorem pause_informs (ha : A.Attended e) (hs : (e.workflow A.workflow).current = s) :
    (pause h A.workflow s).Ends e (fun _ => A.Reaches e) (fun _ => A.Reaches e) := by
  unfold pause
  rw [ends_bind, ends_get]
  dsimp only
  cases hd : (e.step s).isDecision
  case false => exact ha.reaches
  rw [if_pos rfl, ends_bind]
  cases hw : (e.workflow A.workflow).state.allows .waiting
  case false =>
    simp only [moveWorkflow, ends_bind, ends_get, ends_failIf, hw]
    exact ha.reaches
  refine ends_moveWorkflow .waiting hw fun e₁ h₁ _ => (ends_bind _ _).mpr ?_
  refine (emit_informs hl ha rfl ?_ (fun n hn => ?_) h₁).mono (fun _ _ h' => h') fun _ _ h' => h'
  · cases hst : (e.workflow A.workflow).state <;> rw [hst] at hw <;> first | rfl | contradiction
  · obtain ⟨d, hd⟩ := Option.isSome_iff_exists.mp hd
    rw [hs, ← EventKind.waiting.inj hn, Step.number, hd]
    rfl

/-- Leaving a completed step behind keeps the audience informed. -/
theorem leave_informs (ha : A.Attended e) :
    (leave h A.workflow s).Ends e (fun _ => A.Follows e) (fun _ => A.Follows e) := by
  obtain ⟨e₁, he₁⟩ : ∃ e₁, e₁ = e.mapWorkflow A.workflow (·.left s) := ⟨_, rfl⟩
  have h₁ : A.Reaches e e₁ := he₁ ▸ record_keeps e ha
  have hends : ∀ next kind, (finish h A.workflow next kind).Always A.Keeps →
      (finish h A.workflow next kind).Ends e₁ (fun _ => A.Follows e) (fun _ => A.Follows e) :=
    fun next kind hk => (hk.ends e₁).mono (fun _ _ h₂ => (h₁.trans (h₂ h₁.attended)).toFollows)
      fun _ _ h₂ => (h₁.trans (h₂ h₁.attended)).toFollows
  unfold leave
  rw [ends_bind, record, ends_updateWorkflow, ends_bind, ends_get]
  show Ends _ (e.mapWorkflow A.workflow (·.left s)) _ _
  rw [← he₁]
  dsimp only
  split
  · exact (ends_bind _ _).mpr (hends .aborted _ (aborting_keeps hl _))
  · split
    · exact (ends_bind _ _).mpr (hends .completed _ (completing_keeps hl _))
    · rename_i t ht
      rw [ends_bind]
      exact (follow_informs h₁.attended t _).mono (fun _ _ h₂ => h₁.toFollows.trans h₂)
        fun _ _ h₂ => h₁.toFollows.trans h₂

theorem enter_keeps : (enter h A.workflow).Always A.Keeps := by
  intro e ha
  refine Ends.state (P := A.Reaches e) ?_
  refine enter_ends (fun _ _ => ha.reaches) (fun _ _ => ha.reaches) (fun _ => ha.reaches)
    (fun hst e₁ h₁ _ => ?_) fun hst _ e₁ h₁ _ => ?_
  · exact emit_informs hl ha (f := (·.resumed _)) rfl (by rw [hst]; rfl) nofun h₁
  · exact emit_informs hl ha (f := (·.resumed _)) rfl (by rw [hst]; rfl) nofun h₁

end Moving

/-! ## Driving -/

/-- Hooks whose listeners take note of events, and that keep the audience informed whatever they do. -/
structure Serves (A : Audience σ) (h : Hooks σ γ) : Prop where
  listens : A.Listens h
  starting : ∀ s, (h.starting s).Always A.Keeps
  execute : ∀ s context, (h.execute s context).Always A.Keeps
  present : ∀ s context, (h.present s context).Always A.Keeps

section Driving

variable (hh : A.Serves h)
include hh

theorem Serves.heed (hv : v ≠ A.workflow) : h.Heed A.Keeps v :=
  ⟨hh.starting, hh.execute, hh.present, fun kind _ => emit_keeps hh.listens hv kind⟩

/-- A hook may have moved the workflow on, but not from a step that is still to be completed. -/
theorem turn_keeps : (turn h A.workflow context).Always A.Keeps := by
  intro e ha
  refine Ends.state (P := A.Reaches e) ?_
  unfold turn
  rw [ends_bind, ends_get, ends_bind, ends_get, ends_bind]
  generalize hs : (e.workflow A.workflow).current = s
  have hrun : (onlyIf (!(e.step s).isCompleted) (runStep h A.workflow s context)).Always A.Keeps :=
    (bears_keeps.runStep (hh.starting s) (hh.execute s context) (hh.present s context)).onlyIf _
  refine (hrun.ends e).mono (fun _ e₁ h₁ => ?_) fun _ _ h₁ => h₁ ha
  have h₁ := h₁ ha
  rw [ends_bind, ends_get]
  cases hc : (e₁.step s).isCompleted
  case true =>
    have hleft : ∀ e₂, A.Follows e₁ e₂ → A.Reaches e e₂ := fun e₂ h₂ =>
      ⟨h₁.toFollows.trans h₂, .inl (hs ▸ h₂.done s hc)⟩
    exact (leave_informs hh.listens h₁.attended).mono (fun _ => hleft) fun _ => hleft
  case false =>
    have hcur : (e₁.workflow A.workflow).current = s := by
      refine (h₁.current.resolve_left fun hd => ?_).trans hs
      rw [hs, hc] at hd
      contradiction
    exact (pause_informs hh.listens h₁.attended hcur).mono (fun _ _ h₂ => h₁.trans h₂)
      fun _ _ h₂ => h₁.trans h₂

theorem traverse_keeps (turns : Nat) : (traverse h A.workflow context turns).Always A.Keeps := by
  induction turns with
  | zero => exact always_throw _
  | succ turns ih =>
    refine (turn_keeps hh).bind fun progress => ?_
    cases progress with
    | stop state => exact always_pure state
    | goOn => exact ih

theorem advance_keeps : (advance h v context).Always A.Keeps := by
  by_cases hv : v = A.workflow
  case neg => exact (sustains_keeps hv).advance (hh.heed hv)
  rw [hv, advance_eq_enter]
  refine (enter_keeps hh.listens).bind fun go => ?_
  split
  · exact always_get.bind fun _ => traverse_keeps hh _
  · exact always_pure _

theorem abort_keeps : (abort h v).Always A.Keeps := by
  by_cases hv : v = A.workflow
  case neg => exact (sustains_keeps hv).abort (hh.heed hv).emit
  rw [hv]
  refine always_get.bind fun e => (always_failIf _ _).bind fun _ => ?_
  exact ((bears_keeps.setOutcome _).onlyIf _).bind fun _ => (record_keeps.onlyIf _).bind fun _ =>
    aborting_keeps hh.listens _

end Driving

/-! ## Managers and queues -/

theorem reassign_keeps (actor : Option Actor) : (reassign s actor : Act σ Unit).Always A.Keeps :=
  always_get.bind fun _ => (always_failIf _ _).bind fun _ => (always_failIf _ _).bind fun _ =>
    (always_failIf _ _).bind fun _ => bears_keeps.note.bind fun _ =>
      always_modify fun _ => keeps_mapStep _ id

/-- Nothing has been told of a workflow that has not started, so that its id may still change. -/
theorem keeps_renamed (hst : (e.workflow v).state = .created) (id : Int) :
    A.Keeps e (e.mapWorkflow v (·.renamed id)) := by
  by_cases hv : v = A.workflow
  case neg =>
    have ha : A.Apart e (e.mapWorkflow v (·.renamed id)) :=
      apart_of_same (workflow_mapWorkflow_of_ne _ _ fun hw => hv hw.symm)
        (hasWorkflow_mapWorkflow ..).mpr (fun u _ => workflow_mapWorkflow_eq rfl u) (fun _ hc => hc) rfl
    exact ha.keeps
  subst hv
  intro ha
  have hcur := congrArg Workflow.current (workflow_mapWorkflow_self (·.renamed id) ha.hasWorkflow)
  refine ⟨⟨ha.mapWorkflow ?_ ha.fronts, fun _ hc => hc⟩, .inr hcur⟩
  obtain ⟨stream, hc, hheard⟩ := ha.informed
  have hc : Chronicle (e.workflow A.workflow).id .created stream := by
    rw [← hst]
    exact hc
  have hnew : Chronicle id (e.workflow A.workflow).state [] := by
    rw [hst]
    exact chronicle_nil id
  exact ⟨[], hnew, fun l hin => (hheard l hin).trans (by rw [hc.eq_nil])⟩

theorem assignId_keeps (id : Int) : (assignId v id : Act σ Unit).Always A.Keeps := by
  refine always_of_ends fun e => (assignId_ends v id e).mono ?_ ?_
  · rintro _ _ ⟨hst, -, rfl⟩
    exact IsTrans.trans _ _ _ (keeps_renamed hst id) (keeps_mapStep _ fun hc => hc)
  · rintro _ _ (rfl | ⟨hst, -, rfl⟩)
    · exact refl _
    · exact keeps_renamed hst id

/-- Managers come to listen behind the audience. -/
theorem listenTo_keeps : (listenTo v (.manager m) : Act σ Unit).Always A.Keeps := by
  intro e
  show A.Keeps e (e.mapWorkflow v fun wf => { wf with listeners := wf.listeners ++ [.manager m] })
  by_cases hv : v = A.workflow
  case pos =>
    subst hv
    intro ha
    have hcur := congrArg Workflow.current (workflow_mapWorkflow_self
      (fun wf => { wf with listeners := wf.listeners ++ [.manager m] }) ha.hasWorkflow)
    refine ⟨⟨ha.mapWorkflow ha.informed ?_, fun _ => id⟩, .inr hcur⟩
    obtain ⟨front, rest, hls, hcount⟩ := ha.fronts
    refine ⟨front, rest ++ [.manager m], ?_, fun l hin => ⟨(hcount l hin).1, fun hmem => ?_⟩⟩
    · rw [← List.append_assoc, ← hls]
    · rcases List.mem_append.mp hmem with hmem | hmem
      · exact (hcount l hin).2 hmem
      · exact absurd (List.mem_singleton.mp hmem) nofun
  have hwf : ∀ f, (e.mapWorkflow v f).workflow A.workflow = e.workflow A.workflow := fun f =>
    workflow_mapWorkflow_of_ne _ f fun hw => hv hw.symm
  have ha : A.Apart e
      (e.mapWorkflow v fun wf => { wf with listeners := wf.listeners ++ [.manager m] }) := by
    refine ⟨(hasWorkflow_mapWorkflow ..).mpr, ?_, ?_, ?_, ?_, fun u hu l hin hmem => ?_, fun _ => id,
      fun _ _ => rfl, fun _ => .inl⟩
    · rw [hwf]
    · rw [hwf]
    · rw [hwf]
    · rw [hwf]; exact id
    · rw [workflow_mapWorkflow] at hmem
      split at hmem
      · rcases List.mem_append.mp hmem with hmem | hmem
        · exact hmem
        · exact absurd (List.mem_singleton.mp hmem) nofun
      · exact hmem
  exact ha.keeps

section Managing

variable (hh : A.Serves h)
include hh

omit hh in
theorem accept_keeps : (accept m v : Act σ Unit).Always A.Keeps := by
  refine always_get.bind fun e => ?_
  dsimp only
  split
  · refine Always.bind (always_get.bind fun _ => ?_) fun n => assignId_keeps n
    exact (always_updateManager bears_keeps.apart m _).bind fun _ => always_pure _
  · exact always_failIf _ _

theorem startManaged_keeps : (startManaged h m v context).Always A.Keeps := by
  have hregister : (register m v : Act σ Unit).Always A.Keeps :=
    always_get.bind fun _ => (always_updateManager bears_keeps.apart m _).bind fun _ =>
      listenTo_keeps.bind fun _ => bears_keeps.note
  exact always_get.bind fun _ => (always_failIf _ _).bind fun _ => accept_keeps.bind fun _ =>
    hregister.bind fun _ => advance_keeps hh

theorem decideQueued_keeps (o : Outcome) (actor : Option Actor) :
    (decideQueued h q s o actor).Always A.Keeps := by
  have hdequeue : (dequeue h q s).Always A.Keeps :=
    always_dequeue (fun _ _ hk => observe_keeps hh.listens fun _ => hk) bears_keeps.apart q s
  exact (always_requireQueued q s).bind fun _ => always_get.bind fun _ => (always_failIf _ _).bind fun _ =>
    (bears_keeps.resolve o).bind fun _ => always_get.bind fun _ => hdequeue.onlyIf _

theorem decide_keeps (o : Outcome) (actor : Option Actor) :
    (decide h m s o actor context).Always A.Keeps := by
  refine always_get.bind fun e => ?_
  dsimp only
  split
  · exact (always_numberOf s).bind fun _ => always_throw _
  · exact (decideQueued_keeps hh o actor).bind fun _ => advance_keeps hh

theorem reassignQueued_keeps (actor : Option Actor) : (reassignQueued h q s actor).Always A.Keeps :=
  (always_requireQueued q s).bind fun _ => always_get.bind fun _ => (reassign_keeps actor).bind fun _ =>
    always_emitQueue (fun _ _ hk => observe_keeps hh.listens fun _ => hk) q s rfl

end Managing

/-! ## Hooks within hooks -/

/-- Programs of hooks, which may call the engine with the hooks `below`. -/
inductive Calls (A : Audience σ) (below : Hooks σ γ → Prop) : {α : Type} → Act σ α → Prop
  | apart {α : Type} {m : Act σ α} (h : m.Always A.Apart) : Calls A below m
  | setOutcome (s : StepId) (o : Outcome) : Calls A below (setOutcome s o)
  | resolve (s : StepId) (o : Outcome) : Calls A below (resolve s o)
  | reassign (s : StepId) (actor : Option Actor) : Calls A below (reassign s actor)
  | assignId (v : WorkflowId) (id : Int) : Calls A below (assignId v id)
  | advance (h : Hooks σ γ) (v : WorkflowId) (context : γ) (hb : below h) :
      Calls A below (advance h v context)
  | abort (h : Hooks σ γ) (v : WorkflowId) (hb : below h) : Calls A below (abort h v)
  | start (h : Hooks σ γ) (m : ManagerId) (v : WorkflowId) (context : γ) (hb : below h) :
      Calls A below (startManaged h m v context)
  | decide (h : Hooks σ γ) (m : ManagerId) (s : StepId) (o : Outcome) (actor : Option Actor)
      (context : γ) (hb : below h) : Calls A below (decide h m s o actor context)
  | decideQueued (h : Hooks σ γ) (q : QueueId) (s : StepId) (o : Outcome) (actor : Option Actor)
      (hb : below h) : Calls A below (decideQueued h q s o actor)
  | reassignQueued (h : Hooks σ γ) (q : QueueId) (s : StepId) (actor : Option Actor) (hb : below h) :
      Calls A below (reassignQueued h q s actor)
  | bind {α β : Type} {m : Act σ α} {f : α → Act σ β} (hm : Calls A below m)
      (hf : ∀ a, Calls A below (f a)) : Calls A below (m >>= f)
  | tryCatch {α : Type} {m : Act σ α} {handle : Failure → Act σ α} (hm : Calls A below m)
      (hf : ∀ x, Calls A below (handle x)) : Calls A below (tryCatch m handle)

/-- Hooks whose listeners take note of events, and that may call the engine again a finite number of
levels deep. -/
inductive Attentive (A : Audience σ) : Hooks σ γ → Prop
  | intro (h : Hooks σ γ) (below : Hooks σ γ → Prop) (nested : ∀ h', below h' → Attentive A h')
      (listens : A.Listens h)
      (starting : ∀ s, Calls A below (h.starting s))
      (execute : ∀ s context, Calls A below (h.execute s context))
      (present : ∀ s context, Calls A below (h.present s context)) : Attentive A h

structure Opened (A : Audience σ) (e : Engine σ) : Prop where
  hasWorkflow : e.HasWorkflow A.workflow
  created : (e.workflow A.workflow).state = .created
  fronts : A.Fronts (e.workflow A.workflow).listeners
  elsewhere : ∀ v, v ≠ A.workflow → ∀ l, A.Includes l → .observer l ∉ (e.workflow v).listeners
  unheard : ∀ l, A.Includes l → A.heard e.host l = []
  unseen : A.views e.host = []

theorem Calls.keeps {below : Hooks σ γ → Prop} {action : Act σ α} (hb : ∀ h, below h → A.Serves h)
    (hc : Calls A below action) : action.Always A.Keeps := by
  induction hc with
  | apart h => exact h.mono Apart.keeps
  | setOutcome s o => exact bears_keeps.setOutcome o
  | resolve s o => exact bears_keeps.resolve o
  | reassign s actor => exact reassign_keeps actor
  | assignId v id => exact assignId_keeps id
  | advance h v context hbelow => exact advance_keeps (hb h hbelow)
  | abort h v hbelow => exact abort_keeps (hb h hbelow)
  | start h m v context hbelow => exact startManaged_keeps (hb h hbelow)
  | decide h m s o actor context hbelow => exact decide_keeps (hb h hbelow) o actor
  | decideQueued h q s o actor hbelow => exact decideQueued_keeps (hb h hbelow) o actor
  | reassignQueued h q s actor hbelow => exact reassignQueued_keeps (hb h hbelow) actor
  | bind _ _ ihm ihf => exact ihm.bind ihf
  | tryCatch _ _ ihm ihf => exact ihm.tryCatch ihf

theorem Attentive.serves (hh : A.Attentive h) : A.Serves h := by
  induction hh with
  | intro h below nested listens starting execute present ih =>
    exact ⟨listens, fun s => (starting s).keeps ih, fun s context => (execute s context).keeps ih,
      fun s context => (present s context).keeps ih⟩

theorem Opened.attended (ho : A.Opened e) : A.Attended e := by
  refine ⟨ho.hasWorkflow, ho.fronts, ho.elsewhere, ⟨[], ?_, ho.unheard⟩, fun v hv => ?_⟩
  · show Chronicle _ (e.workflow A.workflow).state []
    rw [ho.created]
    exact chronicle_nil _
  · rw [ho.unseen] at hv
    exact absurd hv List.not_mem_nil

/-- An operation keeps the audience informed, whether it succeeds or fails. -/
theorem perform_keeps (hh : A.Attentive h) (op : Operation σ γ)
    (hop : ∀ action, op = .other action → Calls A (Attentive A : Hooks σ γ → Prop) action) :
    (perform h op).Always A.Keeps := by
  have hs := hh.serves
  cases op with
  | advance v context => exact (advance_keeps hs).bind fun _ => always_pure ()
  | abort v => exact abort_keeps hs
  | resolve s o => exact bears_keeps.resolve o
  | reassign s actor => exact reassign_keeps actor
  | start m v context => exact (startManaged_keeps hs).bind fun _ => always_pure ()
  | decide m s o actor context => exact (decide_keeps hs o actor).bind fun _ => always_pure ()
  | decideQueued q s o actor => exact decideQueued_keeps hs o actor
  | reassignQueued q s actor => exact reassignQueued_keeps hs actor
  | other action => exact (hop action rfl).keeps fun _ ha => ha.serves

/-- What the listeners hear of a workflow is how it has come to its state, at any time: at the end of a
run, however its operations have ended, and whenever a view has been taken on the way. -/
theorem informed_throughout {ops : List (Operation σ γ)} (hh : A.Attentive h) (ho : A.Opened e)
    (hops : ∀ action, .other action ∈ ops → Calls A (Attentive A : Hooks σ γ → Prop) action) :
    A.Informed (A.view (runs h e ops)) ∧ ∀ v ∈ A.views (runs h e ops).host, A.Informed v := by
  have halong : Along h (fun _ op => ∀ action, op = .other action →
      Calls A (Attentive A : Hooks σ γ → Prop) action) e ops :=
    along_of_forall fun op hop action ha => hops action (ha ▸ hop)
  have ha : A.Attended (runs h e ops) := runs_invariant (P := A.Attended)
    (fun e₁ op h₁ hop => (perform_keeps hh op hop e₁ h₁).attended) ho.attended halong
  exact ⟨ha.informed, ha.views⟩

/-! ## A draft that is signed -/

structure Minutes where
  heard : List (ListenerId × Notice) := []
  views : List View := []

/-- Two listeners of the first workflow, the second of which was added twice. -/
def readers : Audience Minutes where
  workflow := ⟨0⟩
  times l := if l = ⟨0⟩ then 1 else if l = ⟨1⟩ then 2 else 0
  heard d l := (d.heard.filter (·.1 = l)).map (·.2)
  views := Minutes.views

def jot (l : ListenerId) (event : Event) : Act Minutes Unit := do
  let e ← get
  let n : Notice := ⟨event, (e.step (e.workflow readers.workflow).current).decision.map (·.number)⟩
  onlyIf (!event.kind.isOfQueue) (updateHost fun d => { d with heard := d.heard ++ [(l, n)] })

def takeView : Act Minutes Unit := do
  let e ← get
  updateHost fun d => { d with views := d.views ++ [readers.view e] }

def viewingHooks : Hooks Minutes Unit where
  starting _ := pure ()
  execute _ _ := do
    takeView
    return .complete
  present _ _ := takeView
  observe := jot
  room := 0

/-- Hooks by which a task completes itself, advances the workflow and then fails. -/
def hastyHooks : Hooks Minutes Unit :=
  { viewingHooks with
    execute := fun s _ => do
      setOutcome s .complete
      let _ ← advance viewingHooks ⟨0⟩ ()
      takeView
      throw (.raised .business "late") }

def draft : Engine Minutes :=
  ((do
    let _ ← addManager ⟨"INFO", []⟩
    let s ← addTask "Task" "draft" none
    let t ← addSimpleDecision "SimpleDecision" "sign" (some ⟨"ann"⟩) false
    setSuccessor s (some t)
    let w ← addWorkflow "draft" s none 7 []
    [(⟨0⟩ : ListenerId), ⟨1⟩, ⟨1⟩].forM fun l => listenTo w (.observer l) : Act Minutes Unit).run
    { clock := .counter 1 1, host := {} }).2

/-- The draft is started and signed, and then a view is taken of it. -/
def signing : List (Operation Minutes Unit) :=
  [.start ⟨0⟩ ⟨0⟩ (), .decide ⟨0⟩ ⟨1⟩ .approve (some ⟨"ann"⟩) (), .other takeView]

theorem heard_concat (d : Minutes) (x : ListenerId × Notice) (k : ListenerId) :
    readers.heard { d with heard := d.heard ++ [x] } k =
      readers.heard d k ++ if x.1 = k then [x.2] else [] := by
  show ((d.heard ++ [x]).filter _).map _ = (d.heard.filter _).map _ ++ _
  rw [List.filter_append, List.map_append]
  congr 1
  by_cases hx : x.1 = k <;> simp [hx]

theorem listens_viewingHooks : readers.Listens viewingHooks := by
  intro l event e
  show (jot l event).Ends e _ _
  unfold jot
  rw [ends_bind, ends_get, ends_onlyIf]
  cases hk : event.kind.isOfQueue
  case true => exact ⟨rfl, rfl, fun k => by simp [hk]⟩
  case false =>
    refine ⟨rfl, rfl, fun k => (heard_concat e.host _ k).trans ?_⟩
    simp only [hk, and_true, eq_comm]

theorem apart_takeView : takeView.Always readers.Apart := by
  intro e
  refine ⟨id, rfl, rfl, rfl, id, fun _ _ _ _ => id, fun _ => id, fun _ _ => rfl, fun v hv => ?_⟩
  exact (List.mem_append.mp hv).imp_right List.mem_singleton.mp

theorem attentive_viewingHooks : readers.Attentive viewingHooks := by
  refine .intro _ (fun _ => False) (fun _ => False.elim) listens_viewingHooks
    (fun _ => .apart (always_pure ())) (fun _ _ => ?_) fun _ _ => .apart apart_takeView
  exact (Calls.apart apart_takeView).bind fun _ => .apart (always_pure _)

theorem attentive_hastyHooks : readers.Attentive hastyHooks := by
  refine .intro _ (· = viewingHooks) (fun _ hb => hb ▸ attentive_viewingHooks) listens_viewingHooks
    (fun _ => .apart (always_pure ())) (fun s _ => ?_) fun _ _ => .apart apart_takeView
  have hadvance : Calls readers (· = viewingHooks) (advance viewingHooks ⟨0⟩ ()) := .advance _ _ _ rfl
  exact (Calls.setOutcome s .complete).bind fun _ => hadvance.bind fun _ =>
    (Calls.apart apart_takeView).bind fun _ => .apart (always_throw _)

theorem opened_of_blank {e : Engine Minutes} (hsize : e.workflows.size = 1)
    (hst : (e.workflow ⟨0⟩).state = .created)
    (hls : (e.workflow ⟨0⟩).listeners = [.observer ⟨0⟩, .observer ⟨1⟩, .observer ⟨1⟩])
    (hheard : e.host.heard = []) (hviews : e.host.views = []) : readers.Opened e := by
  refine ⟨Nat.lt_of_lt_of_eq Nat.zero_lt_one hsize.symm, hst, ?_, fun v hv l _ => ?_, fun l _ => ?_,
    hviews⟩
  · refine ⟨[⟨0⟩, ⟨1⟩, ⟨1⟩], [], hls, fun l _ => ⟨?_, List.not_mem_nil⟩⟩
    by_cases h₀ : l = ⟨0⟩
    · rw [h₀]; rfl
    by_cases h₁ : l = ⟨1⟩
    · rw [h₁]; rfl
    · rw [List.count_eq_zero_of_not_mem (by simp [h₀, h₁])]
      exact ((if_neg h₀).trans (if_neg h₁)).symm
  · -- There is no other workflow.
    rw [workflow_of_not_hasWorkflow fun hw => hv ?_]
    · exact List.not_mem_nil
    · obtain ⟨i⟩ := v
      exact congrArg _ (Nat.lt_one_iff.mp (hsize ▸ hw))
  · show (e.host.heard.filter _).map _ = []
    rw [hheard]
    rfl

theorem opened_draft : readers.Opened draft := by
  have hviews : draft.host.views.length = 0 := by decide +kernel
  exact opened_of_blank (by decide +kernel) (by decide +kernel) (by decide +kernel) (by decide +kernel)
    (List.eq_nil_of_length_eq_zero hviews)

/-- The draft is advanced by its own task and the task fails, but the listeners hear one chronicle. -/
theorem signing_chronicled :
    ((runs hastyHooks draft signing).workflow ⟨0⟩).state = .completed ∧
      (readers.heard (runs hastyHooks draft signing).host ⟨0⟩).map (·.event.kind) =
        [.started, .waiting 1, .running, .completed Outcome.approve.key] ∧
      (readers.views (runs hastyHooks draft signing).host).map (·.state) =
        [.running, .waiting, .completed] ∧
      readers.Informed (readers.view (runs hastyHooks draft signing)) ∧
      ∀ v ∈ readers.views (runs hastyHooks draft signing).host, readers.Informed v := by
  have hops : ∀ action, .other action ∈ signing →
      Calls readers (Attentive readers : Hooks Minutes Unit → Prop) action := by
    intro action ha
    have hlook : action = takeView := by simpa [signing] using ha
    exact hlook ▸ .apart apart_takeView
  exact ⟨by decide +kernel, by decide +kernel, by decide +kernel,
    informed_throughout attentive_hastyHooks opened_draft hops⟩

end ApprovalFlow.Audience
