import ApprovalFlow.Proofs.DrivingInvariants

/-!
# What the listeners of a workflow are told

Each event of a workflow says to which state it leads (`WorkflowState.after?`). An audience is some
listeners of one workflow with what they have heard. Its members are informed if they have all heard one
stream of events, which is a chronicle of the workflow up to the state that it is in. What does not concern
the workflow keeps them informed, and so does a move of the workflow of which its listeners are told at
once.
-/

namespace ApprovalFlow

open Act

variable {σ γ : Type}

/-! ## Chronicles -/

def WorkflowState.after? : WorkflowState → EventKind → Option WorkflowState
  | .created, .started => some .running
  | .running, .waiting _ => some .waiting
  | .waiting, .running => some .running
  | .running, .completed _ => some .completed
  | .created, .aborted _ => some .aborted
  | .running, .aborted _ => some .aborted
  | .waiting, .aborted _ => some .aborted
  | _, _ => none

def EventKind.isLast : EventKind → Bool
  | completed _ => true
  | aborted _ => true
  | _ => false

/-- An event as a listener hears it, with the number of the decision, if it is one, that the workflow was
on at that moment. -/
structure Notice where
  event : Event
  deciding : Option Nat
  deriving Repr, DecidableEq

/-- The state to which a stream of events leads a new workflow, if it can happen in that order. -/
def replay (stream : List Notice) : Option WorkflowState :=
  stream.foldlM (fun state n => state.after? n.event.kind) .created

/-- The stream of events tells how a workflow with this id has come to be in this state. -/
structure Chronicle (id : Int) (state : WorkflowState) (stream : List Notice) : Prop where
  replays : replay stream = some state
  last : ∀ told n rest, stream = told ++ n :: rest → n.event.kind.isLast = true → rest = []
  ids : ∀ n ∈ stream, n.event.workflowId = id
  waits : ∀ n ∈ stream, ∀ k, n.event.kind = .waiting k → n.deciding = some k

namespace WorkflowState

variable {state next : WorkflowState} {kind : EventKind}

theorem after?_of_isTerminal (h : state.isTerminal = true) : state.after? kind = none := by
  cases state <;> first | rfl | exact absurd h nofun

theorem isTerminal_of_after? (hk : kind.isLast = true) (h : state.after? kind = some next) :
    next.isTerminal = true := by
  cases state <;> cases kind <;> simp_all [after?, EventKind.isLast] <;> subst h <;> rfl

theorem not_isOfQueue_of_after? (h : state.after? kind = some next) : kind.isOfQueue = false := by
  cases kind <;> first | rfl | (cases state <;> exact absurd h nofun)

end WorkflowState

theorem replay_append (told rest : List Notice) :
    replay (told ++ rest) =
      (replay told).bind fun state => rest.foldlM (fun state n => state.after? n.event.kind) state := by
  unfold replay
  rw [List.foldlM_append]
  rfl

/-- Nothing can follow the end of a workflow. -/
theorem eq_nil_of_isLast {told rest : List Notice} {n : Notice} {state : WorkflowState}
    (hr : replay (told ++ n :: rest) = some state) (hn : n.event.kind.isLast = true) : rest = [] := by
  rw [replay_append] at hr
  obtain ⟨before, -, hr⟩ := Option.bind_eq_some_iff.mp hr
  rw [List.foldlM_cons] at hr
  obtain ⟨ended, hended, hr⟩ := Option.bind_eq_some_iff.mp hr
  have hterm := WorkflowState.isTerminal_of_after? hn hended
  cases rest with
  | nil => rfl
  | cons m rest =>
    rw [List.foldlM_cons, WorkflowState.after?_of_isTerminal hterm] at hr
    contradiction

theorem chronicle_nil (id : Int) : Chronicle id .created [] where
  replays := rfl
  last told n rest h := absurd h.symm (by simp)
  ids _ h := absurd h List.not_mem_nil
  waits _ h := absurd h List.not_mem_nil

/-- A workflow that has just been made has no history. -/
theorem Chronicle.eq_nil {id : Int} {stream : List Notice} (h : Chronicle id .created stream) :
    stream = [] := by
  rcases List.eq_nil_or_concat stream with rfl | ⟨told, n, rfl⟩
  · rfl
  -- No event leads back to the beginning.
  · have hr := h.replays
    rw [List.concat_eq_append, replay_append] at hr
    obtain ⟨before, -, hr⟩ := Option.bind_eq_some_iff.mp hr
    rw [List.foldlM_cons] at hr
    obtain ⟨now, hnow, hr⟩ := Option.bind_eq_some_iff.mp hr
    rw [Option.some.inj hr] at hnow
    cases before <;> cases hk : n.event.kind <;> rw [hk] at hnow <;> exact absurd hnow nofun

theorem Chronicle.concat {id : Int} {state next : WorkflowState} {stream : List Notice} {n : Notice}
    (h : Chronicle id state stream) (ha : state.after? n.event.kind = some next)
    (hid : n.event.workflowId = id) (hwait : ∀ k, n.event.kind = .waiting k → n.deciding = some k) :
    Chronicle id next (stream ++ [n]) := by
  have hr : replay (stream ++ [n]) = some next := by
    rw [replay_append, h.replays]
    show (state.after? n.event.kind).bind _ = _
    rw [ha]
    rfl
  refine ⟨hr, fun told m rest hs hm => eq_nil_of_isLast (hs ▸ hr) hm, fun m hm => ?_, fun m hm => ?_⟩
  · rcases List.mem_append.mp hm with hm | hm
    · exact h.ids m hm
    · rw [List.mem_singleton.mp hm, hid]
  · rcases List.mem_append.mp hm with hm | hm
    · exact h.waits m hm
    · rw [List.mem_singleton.mp hm]
      exact hwait

/-! ## Audiences -/

structure View where
  state : WorkflowState
  id : Int
  heard : ListenerId → List Notice

/-- An audience of a workflow: how many times each listener has been added to it, what the listeners have
heard, and which views the host has taken. -/
structure Audience (σ : Type) where
  workflow : WorkflowId
  times : ListenerId → Nat
  heard : σ → ListenerId → List Notice
  views : σ → List View

namespace Audience

def Includes (A : Audience σ) (l : ListenerId) : Prop := 0 < A.times l

def view (A : Audience σ) (e : Engine σ) : View :=
  ⟨(e.workflow A.workflow).state, (e.workflow A.workflow).id, A.heard e.host⟩

/-- All listeners of the audience have heard the same chronicle of the workflow, each of them every event
as often as it was added. -/
def Informed (A : Audience σ) (v : View) : Prop :=
  ∃ stream, Chronicle v.id v.state stream ∧
    ∀ l, A.Includes l → v.heard l = stream.flatMap (List.replicate (A.times l))

/-- The listeners of the audience stand before all managers and before whatever was added later. -/
def Fronts (A : Audience σ) (listeners : List Listener) : Prop :=
  ∃ (front : List ListenerId) (rest : List Listener), listeners = front.map .observer ++ rest ∧
    ∀ l, A.Includes l → front.count l = A.times l ∧ .observer l ∉ rest

/-- The audience listens to its workflow, and to no other, and has been informed all the time. -/
structure Attended (A : Audience σ) (e : Engine σ) : Prop where
  hasWorkflow : e.HasWorkflow A.workflow
  fronts : A.Fronts (e.workflow A.workflow).listeners
  elsewhere : ∀ v, v ≠ A.workflow → ∀ l, A.Includes l → .observer l ∉ (e.workflow v).listeners
  informed : A.Informed (A.view e)
  views : ∀ v ∈ A.views e.host, A.Informed v

structure Follows (A : Audience σ) (e e' : Engine σ) : Prop where
  attended : A.Attended e'
  done : ∀ s, (e.step s).isCompleted = true → (e'.step s).isCompleted = true

structure Reaches (A : Audience σ) (e e' : Engine σ) : Prop extends Follows A e e' where
  current : (e'.step (e.workflow A.workflow).current).isCompleted = true ∨
    (e'.workflow A.workflow).current = (e.workflow A.workflow).current

def Keeps (A : Audience σ) (e e' : Engine σ) : Prop := A.Attended e → A.Reaches e e'

/-- The workflow, its audience and what they have heard are left alone; views may be taken. -/
structure Apart (A : Audience σ) (e e' : Engine σ) : Prop where
  hasWorkflow : e.HasWorkflow A.workflow → e'.HasWorkflow A.workflow
  state : (e'.workflow A.workflow).state = (e.workflow A.workflow).state
  id : (e'.workflow A.workflow).id = (e.workflow A.workflow).id
  current : (e'.workflow A.workflow).current = (e.workflow A.workflow).current
  fronts : A.Fronts (e.workflow A.workflow).listeners → A.Fronts (e'.workflow A.workflow).listeners
  elsewhere : ∀ v, v ≠ A.workflow → ∀ l, A.Includes l →
    .observer l ∈ (e'.workflow v).listeners → .observer l ∈ (e.workflow v).listeners
  done : ∀ s, (e.step s).isCompleted = true → (e'.step s).isCompleted = true
  heard : ∀ l, A.Includes l → A.heard e'.host l = A.heard e.host l
  views : ∀ v ∈ A.views e'.host, v ∈ A.views e.host ∨ v = A.view e

structure Hears (A : Audience σ) (l : ListenerId) (event : Event) (e e' : Engine σ) : Prop where
  core : e'.core = e.core
  views : A.views e'.host = A.views e.host
  heard : ∀ k, A.heard e'.host k = A.heard e.host k ++
    if k = l ∧ event.kind.isOfQueue = false then
      [⟨event, (e.step (e.workflow A.workflow).current).decision.map (·.number)⟩] else []

def Listens (A : Audience σ) (h : Hooks σ γ) : Prop :=
  ∀ l event e, (h.observe l event).Ends e (fun _ => A.Hears l event e) fun _ _ => False

open Engine

variable {A : Audience σ} {e e' e'' : Engine σ}

theorem Informed.congr {v v' : View} (h : A.Informed v) (hs : v'.state = v.state) (hi : v'.id = v.id)
    (hl : ∀ l, A.Includes l → v'.heard l = v.heard l) : A.Informed v' := by
  obtain ⟨stream, hc, hheard⟩ := h
  exact ⟨stream, hs ▸ hi ▸ hc, fun l hin => (hl l hin).trans (hheard l hin)⟩

/-- Who has been informed is informed of what comes next by being told of it. -/
theorem Informed.told {v v' : View} {n : Notice} (h : A.Informed v) (hi : v'.id = v.id)
    (ha : v.state.after? n.event.kind = some v'.state) (hid : n.event.workflowId = v.id)
    (hwait : ∀ k, n.event.kind = .waiting k → n.deciding = some k)
    (hl : ∀ l, A.Includes l → v'.heard l = v.heard l ++ List.replicate (A.times l) n) :
    A.Informed v' := by
  obtain ⟨stream, hc, hheard⟩ := h
  refine ⟨stream ++ [n], hi ▸ hc.concat ha hid hwait, fun l hin => ?_⟩
  rw [hl l hin, hheard l hin, List.flatMap_append, List.flatMap_singleton]

theorem Follows.trans (h : A.Follows e e') (h' : A.Follows e' e'') : A.Follows e e'' :=
  ⟨h'.attended, fun s hs => h'.done s (h.done s hs)⟩

theorem Attended.reaches (h : A.Attended e) : A.Reaches e e := ⟨⟨h, fun _ => id⟩, .inr rfl⟩

theorem Reaches.trans (h : A.Reaches e e') (h' : A.Reaches e' e'') : A.Reaches e e'' where
  toFollows := h.toFollows.trans h'.toFollows
  current := by
    rcases h.current with hc | hc
    · exact .inl (h'.done _ hc)
    · rw [← hc]
      exact h'.current

instance : IsPreorder (Engine σ) A.Keeps where
  refl _ := Attended.reaches
  trans _ _ _ h h' ha := (h ha).trans (h' (h ha).attended)

theorem Apart.keeps (h : A.Apart e e') : A.Keeps e e' := by
  refine fun ha => ⟨⟨⟨h.hasWorkflow ha.hasWorkflow, h.fronts ha.fronts, fun v hv l hl hmem => ?_, ?_,
    fun v hv => ?_⟩, h.done⟩, .inr h.current⟩
  · exact ha.elsewhere v hv l hl (h.elsewhere v hv l hl hmem)
  · exact ha.informed.congr h.state h.id h.heard
  · rcases h.views v hv with hv | rfl
    · exact ha.views v hv
    · exact ha.informed

/-- What leaves the record of the workflow, all listeners and the host alone. -/
theorem apart_of_same (hwf : e'.workflow A.workflow = e.workflow A.workflow)
    (hhas : e.HasWorkflow A.workflow → e'.HasWorkflow A.workflow)
    (hl : ∀ v, v ≠ A.workflow → (e'.workflow v).listeners = (e.workflow v).listeners)
    (hd : ∀ s, (e.step s).isCompleted = true → (e'.step s).isCompleted = true)
    (hh : e'.host = e.host) : A.Apart e e' where
  hasWorkflow := hhas
  state := by rw [hwf]
  id := by rw [hwf]
  current := by rw [hwf]
  fronts hf := hwf ▸ hf
  elsewhere v hv l _ hmem := hl v hv ▸ hmem
  done := hd
  heard l _ := by rw [hh]
  views v hv := .inl (hh ▸ hv)

theorem apart_of_workflows (hw : e'.workflows = e.workflows)
    (hd : ∀ s, (e.step s).isCompleted = true → (e'.step s).isCompleted = true)
    (hh : e'.host = e.host) : A.Apart e e' :=
  apart_of_same (workflow_of_workflows hw _) (hasWorkflow_of_workflows hw _).mpr
    (fun v _ => by rw [workflow_of_workflows hw v]) hd hh

theorem apart_off (hs : e'.steps = e.steps) (hw : e'.workflows = e.workflows) (hh : e'.host = e.host) :
    A.Apart e e' :=
  apart_of_workflows hw (fun s hc => by rwa [step_of_steps hs]) hh

instance : Std.Refl (A.Apart) := ⟨fun _ => apart_off rfl rfl rfl⟩

theorem Hears.apart {l : ListenerId} {event : Event} (h : A.Hears l event e e')
    (hq : A.Includes l → event.kind.isOfQueue = true) : A.Apart e e' where
  hasWorkflow := (hasWorkflow_of_core h.core _).mpr
  state := by rw [workflow_of_core h.core]
  id := by rw [workflow_of_core h.core]
  current := by rw [workflow_of_core h.core]
  fronts hf := workflow_of_core h.core _ ▸ hf
  elsewhere v _ _ _ hmem := workflow_of_core h.core v ▸ hmem
  done s hs := by rwa [step_of_core h.core]
  heard k hk := by
    rw [h.heard, if_neg, List.append_nil]
    rintro ⟨rfl, hn⟩
    rw [hq hk] at hn
    contradiction
  views v hv := .inl (h.views ▸ hv)

/-- A step may change in whatever way does not undo it. -/
theorem keeps_mapStep {s : StepId} (f : Step → Step)
    (hf : (e.step s).isCompleted = true → (f (e.step s)).isCompleted = true) :
    A.Keeps e (e.mapStep s f) := by
  have ha : A.Apart e (e.mapStep s f) :=
    apart_of_workflows rfl (fun _ => step_mapStep_keeps (p := (·.isCompleted = true)) hf) rfl
  exact ha.keeps

theorem bears_keeps : Bears A.Keeps where
  off hs hw _ hh _ := (apart_off hs hw hh).keeps
  work _ f _ hf := keeps_mapStep f fun hc => (hf.final hc).1

/-- Another workflow may be driven. -/
theorem sustains_keeps {v : WorkflowId} (hv : v ≠ A.workflow) : Sustains A.Keeps v where
  toBears := bears_keeps
  flow f e hc := by
    have hl : (f (e.workflow v)).listeners = (e.workflow v).listeners :=
      (congrArg Workflow.listeners hc.frame :)
    exact (apart_of_same (workflow_mapWorkflow_of_ne _ f hv.symm) (hasWorkflow_mapWorkflow ..).mpr
      (fun u _ => workflow_mapWorkflow_eq hl u) (fun _ => id) rfl).keeps
  go s t e _ _ _ := by
    have ha : A.Apart e ((e.mapStep t (·.boundTo (e.workflow v))).mapWorkflow v (·.moved s t)) := by
      refine apart_of_same (workflow_mapWorkflow_of_ne _ _ hv.symm) (hasWorkflow_mapWorkflow ..).mpr
        (fun u _ => ?_) (fun u hu => ?_) rfl
      · exact workflow_mapWorkflow_eq rfl u
      · rw [step_mapWorkflow]
        exact step_mapStep_keeps (p := (·.isCompleted = true)) id hu
    exact ha.keeps

/-! ## Telling -/

section Telling

variable {h : Hooks σ γ} (hl : A.Listens h)
include hl

/-- Events of queues concern no audience of a workflow. -/
theorem observe_keeps {l : ListenerId} {event : Event}
    (hq : A.Includes l → event.kind.isOfQueue = true) : (h.observe l event).Always A.Keeps :=
  always_of_ends fun e => (hl l event e).mono (fun _ _ hh => (hh.apart hq).keeps) fun _ _ => False.elim

theorem tell_keeps {event : Event} {x : Listener} (hx : ∀ l, A.Includes l → x ≠ .observer l) :
    (tell h event x).Always A.Keeps := by
  cases x with
  | manager m =>
    exact always_manage (fun l event hk => observe_keeps hl fun _ => hk) bears_keeps.apart m event
  | observer l => exact observe_keeps hl fun hin => absurd rfl (hx l hin)

/-- What another workflow tells its listeners. -/
theorem emit_keeps {v : WorkflowId} (hv : v ≠ A.workflow) (kind : EventKind) :
    (emit h v kind).Always A.Keeps := by
  intro e ha
  have hall : ((e.workflow v).listeners.forM (tell h ⟨(e.workflow v).id, kind⟩)).Always A.Keeps := by
    refine Always.forM _ fun x hx => tell_keeps hl fun l hin hxl => ?_
    exact ha.elsewhere v hv l hin (hxl ▸ hx)
  exact hall e ha

/-- All who stand in front are told, each as often as it stands there. -/
theorem front_hears {event : Event} (hk : event.kind.isOfQueue = false) (front : List ListenerId)
    (e : Engine σ) :
    ((front.map .observer).forM (tell h event)).Ends e
      (fun _ e' => e'.core = e.core ∧ A.views e'.host = A.views e.host ∧
        ∀ l, A.heard e'.host l = A.heard e.host l ++ List.replicate (front.count l)
          ⟨event, (e.step (e.workflow A.workflow).current).decision.map (·.number)⟩)
      (fun _ _ => False) := by
  induction front generalizing e with
  | nil => exact ⟨rfl, rfl, fun l => (List.append_nil _).symm⟩
  | cons x front ih =>
    rw [List.map_cons, ends_forM_cons]
    refine (hl x event e).mono (fun _ e₁ h₁ => (ih e₁).mono ?_ fun _ _ => id) fun _ _ => id
    rintro _ e₂ ⟨hc, hv, hheard⟩
    refine ⟨hc.trans h₁.core, hv.trans h₁.views, fun l => ?_⟩
    rw [hheard, h₁.heard, workflow_of_core h₁.core, step_of_core h₁.core, List.append_assoc,
      List.count_cons, hk]
    by_cases hlx : l = x
    · subst hlx
      simp [List.replicate_succ]
    · have hxl : ¬ x = l := fun h => hlx h.symm
      simp [hlx, hxl]

/-- The listeners are told of a move of the workflow that has just been made. -/
theorem emit_informs {e₀ : Engine σ} (h₀ : A.Attended e₀) {f : Workflow → Workflow} {kind : EventKind}
    (hf : (f (e₀.workflow A.workflow)).frame = (e₀.workflow A.workflow).frame)
    (hk : (e₀.workflow A.workflow).state.after? kind = some (f (e₀.workflow A.workflow)).state)
    (hwait : ∀ n, kind = .waiting n →
      (e₀.step (e₀.workflow A.workflow).current).decision.map (·.number) = some n)
    (he : e.Alike (e₀.mapWorkflow A.workflow f)) :
    (emit h A.workflow kind).Ends e (fun _ => A.Reaches e₀) (fun _ => A.Reaches e₀) := by
  have hwf : e.workflow A.workflow = f (e₀.workflow A.workflow) := by
    rw [workflow_of_core he.core, workflow_mapWorkflow_self _ h₀.hasWorkflow]
  have hid : (f (e₀.workflow A.workflow)).id = (e₀.workflow A.workflow).id :=
    (congrArg Workflow.id hf :)
  have hcur : (f (e₀.workflow A.workflow)).current = (e₀.workflow A.workflow).current :=
    (congrArg Workflow.current hf :)
  have hls : (f (e₀.workflow A.workflow)).listeners = (e₀.workflow A.workflow).listeners :=
    (congrArg Workflow.listeners hf :)
  have hstep : ∀ s, e.step s = e₀.step s := fun s => step_of_core he.core s
  obtain ⟨front, rest, hfr, hcount⟩ := h₀.fronts
  unfold emit
  rw [ends_bind, ends_get]
  dsimp only
  rw [hwf, hid, hls, hfr, ends_forM_append]
  -- Those in front are told first.
  refine (front_hears hl (WorkflowState.not_isOfQueue_of_after? hk) front e).mono ?_
    fun _ _ => False.elim
  rintro _ e₁ ⟨hc, hv, htold⟩
  have hwf₁ : e₁.workflow A.workflow = f (e₀.workflow A.workflow) := by
    rw [workflow_of_core hc, hwf]
  have ha₁ : A.Attended e₁ := by
    refine ⟨?_, ?_, fun v hne l hin => ?_, ?_, fun v hv' => ?_⟩
    · rw [hasWorkflow_of_core hc, hasWorkflow_of_core he.core, hasWorkflow_mapWorkflow]
      exact h₀.hasWorkflow
    · rw [hwf₁, hls]
      exact h₀.fronts
    · rw [workflow_of_core hc, workflow_of_core he.core, workflow_mapWorkflow_of_ne _ f hne]
      exact h₀.elsewhere v hne l hin
    · refine h₀.informed.told (n := ⟨⟨(e₀.workflow A.workflow).id, kind⟩,
        (e₀.step (e₀.workflow A.workflow).current).decision.map (·.number)⟩) ?_ ?_ rfl hwait ?_
      · show (e₁.workflow A.workflow).id = _
        rw [hwf₁, hid]
        rfl
      · show _ = some (e₁.workflow A.workflow).state
        rw [hwf₁]
        exact hk
      · intro l hin
        show A.heard e₁.host l = _
        rw [htold, he.host, (hcount l hin).1, hwf, hcur, hstep]
        rfl
    · rw [hv, he.host] at hv'
      exact h₀.views v hv'
  have h₁ : A.Reaches e₀ e₁ := by
    refine ⟨⟨ha₁, fun s hs => ?_⟩, .inr ?_⟩
    · rwa [step_of_core hc, hstep]
    · rw [hwf₁, hcur]
  have hrest : (rest.forM (tell h ⟨(e₀.workflow A.workflow).id, kind⟩)).Always A.Keeps :=
    Always.forM _ fun x hx => tell_keeps hl fun l hin hxl => (hcount l hin).2 (hxl ▸ hx)
  exact (hrest.ends e₁).mono (fun _ _ h₂ => h₁.trans (h₂ ha₁)) fun _ _ h₂ => h₁.trans (h₂ ha₁)

end Telling

end Audience

end ApprovalFlow
