import ApprovalFlow.Proofs.Reachable
import ApprovalFlow.Proofs.HookCalls

/-!
# How often `advance` turns

`Laps` is the traversal without a limit to its turns. Each turn that goes on has completed the step that it
was on and leads to one that is not completed (`Onto`), so what is still to be completed becomes less with
each of them, whatever cycles the graph has. That bounds the turns, by the steps that are there and by the
incomplete ones that can be reached; and no step is attempted in two of them (`advance_laps`).
-/

namespace ApprovalFlow

open Act

variable {σ γ : Type}

/-- An attempt on a step: to start it, or to execute it with a context. -/
inductive Attempt (γ : Type) where
  | start (s : StepId)
  | run (s : StepId) (context : γ)

def Attempt.step : Attempt γ → StepId
  | start s => s
  | run s _ => s

/-- Hooks that log the attempts on steps. To put a decision to its actor is to execute it. -/
structure Hooks.Recounts (h : Hooks σ γ) (log : σ → List (Attempt γ)) : Prop where
  starting : ∀ s, (h.starting s).Always fun e e' => log e'.host = log e.host ++ [.start s]
  execute : ∀ s context, (h.execute s context).Always fun e e' =>
    log e'.host = log e.host ++ [.run s context]
  present : ∀ s context, (h.present s context).Always fun e e' =>
    log e'.host = log e.host ++ [.run s context]
  observe : ∀ l event, (h.observe l event).Always (Engine.Unseen log)

/-- Does something that knows nothing of an account that is kept beside the host, and adds to that. -/
def Act.recount {α : Type} (as : List (Attempt γ)) (m : Act σ α) : Act (σ × List (Attempt γ)) α := fun e =>
  let (r, e₁) := m.run { e with host := e.host.1 }
  (r, { e₁ with host := (e₁.host, e.host.2 ++ as) })

def Hooks.recounted (h : Hooks σ γ) : Hooks (σ × List (Attempt γ)) γ where
  starting s := (h.starting s).recount [.start s]
  execute s context := (h.execute s context).recount [.run s context]
  present s context := (h.present s context).recount [.run s context]
  observe l event := (h.observe l event).recount []
  room := h.room

theorem Hooks.quiet_recounted {h : Hooks σ γ} (hq : h.Quiet) : h.recounted.Quiet where
  starting s e := hq.starting s { e with host := e.host.1 }
  execute s context e := hq.execute s context { e with host := e.host.1 }
  present s context e := hq.present s context { e with host := e.host.1 }
  observe l event e := hq.observe l event { e with host := e.host.1 }

theorem Hooks.recounts_recounted (h : Hooks σ γ) : h.recounted.Recounts Prod.snd where
  starting _ _ := rfl
  execute _ _ _ := rfl
  present _ _ _ := rfl
  observe _ _ _ := List.append_nil _

namespace Engine

variable {h : Hooks σ γ} {w : WorkflowId} {s : StepId} {context : γ} {e e' e'' : Engine σ}
  {log : σ → List (Attempt γ)}

/-! ## Turns without a limit -/

section

variable (h : Hooks σ γ) (w : WorkflowId) (context : γ)

/-- Turns, as many as it takes, come to a result: `n` of them. -/
inductive Laps : Nat → Engine σ → Except Failure WorkflowState × Engine σ → Prop
  | stop {e e' : Engine σ} {state : WorkflowState} :
      (turn h w context).run e = (.ok (.stop state), e') → Laps 1 e (.ok state, e')
  | fail {e e' : Engine σ} {x : Failure} :
      (turn h w context).run e = (.error x, e') → Laps 1 e (.error x, e')
  | goOn {n : Nat} {e e' : Engine σ} {r : Except Failure WorkflowState × Engine σ} :
      (turn h w context).run e = (.ok .goOn, e') → Laps n e' r → Laps (n + 1) e r

/-- Advancing comes to a result after `n` turns, as many as it takes. -/
inductive AdvanceLaps : Nat → Engine σ → Except Failure WorkflowState × Engine σ → Prop
  | idle {e e' : Engine σ} : (enter h w).run e = (.ok false, e') → AdvanceLaps 0 e (.ok .waiting, e')
  | fail {e e' : Engine σ} {x : Failure} :
      (enter h w).run e = (.error x, e') → AdvanceLaps 0 e (.error x, e')
  | go {n : Nat} {e e' : Engine σ} {r : Except Failure WorkflowState × Engine σ} :
      (enter h w).run e = (.ok true, e') → Laps h w context n e' r → AdvanceLaps n e r

end

/-- With enough turns the traversal comes to the result that it has without a limit. -/
theorem Laps.run {n turns : Nat} {r : Except Failure WorkflowState × Engine σ}
    (hn : Laps h w context n e r) (hle : n ≤ turns) : (traverse h w context turns).run e = r := by
  induction hn generalizing turns with
  | stop ht =>
    obtain ⟨turns, rfl⟩ := Nat.exists_eq_add_of_le' hle
    rw [traverse, run_bind, ht]
    rfl
  | fail ht =>
    obtain ⟨turns, rfl⟩ := Nat.exists_eq_add_of_le' hle
    rw [traverse, run_bind, ht]
  | goOn ht _ ih =>
    obtain ⟨turns, rfl⟩ := Nat.exists_eq_add_of_le' (Nat.le_trans (Nat.le_add_left 1 _) hle)
    rw [traverse, run_bind, ht]
    apply ih
    omega

/-! ## What a turn leads on to -/

structure InProgress (w : WorkflowId) (e : Engine σ) : Prop where
  hasWorkflow : e.HasWorkflow w
  running : (e.workflow w).state = .running

/-- The workflow has gone on: the step that it was on is completed, and it is on one that follows and is
not. -/
structure Onto (w : WorkflowId) (e e' : Engine σ) : Prop where
  inProgress : InProgress w e'
  done : (e'.step (e.workflow w).current).isCompleted = true
  follows : (e'.workflow w).current ∈ e.targets (e.workflow w).current
  ahead : (e'.step (e'.workflow w).current).isCompleted = false
  targets : ∀ s, e'.targets s = e.targets s
  keeps : ∀ s, (e.step s).isCompleted = true → (e'.step s).isCompleted = true
  size : e'.steps.size = e.steps.size

/-- Where the current step has been worked on and left for one that follows it, the workflow has gone on. -/
theorem onto_of_worked {t : StepId} (hu : InProgress w e)
    (hw : Worked (fun _ => []) (e.workflow w).current e e')
    (hdone : (e'.step (e.workflow w).current).isCompleted = true)
    (ht : t ∈ e'.targets (e.workflow w).current) (hopen : (e'.step t).isCompleted = false)
    (ha : e''.Alike ((e'.mapStep t (·.boundTo (e'.workflow w))).mapWorkflow w
      fun wf => (wf.left (e.workflow w).current).moved (e.workflow w).current t)) : Onto w e e'' := by
  have hhas : e'.HasWorkflow w := (hw.hasWorkflow w).mpr hu.hasWorkflow
  have hnear : Near (fun _ => []) (fun _ => True) w e e' := near_of_worked hw
  have hworkflow := workflow_of_follows ha hhas
  -- To bind a step does not complete it.
  have hcompleted := step_of_follows ha (g := Step.isCompleted) fun _ _ => rfl
  refine ⟨⟨hasWorkflow_of_follows ha hhas, ?_⟩, ?_, ?_, ?_, ?_, ?_, ?_⟩
  · rw [hworkflow]
    show (e'.workflow w).state = .running
    rw [hw.workflow, hu.running]
  · rw [hcompleted, hdone]
  · rw [hworkflow, ← hw.targets]
    exact ht
  · rw [hworkflow, hcompleted]
    exact hopen
  · intro s
    rw [targets_of_successors (step_of_follows ha (fun _ _ => rfl) s), hnear.targets trivial]
  · intro s hs
    rw [hcompleted]
    exact (hnear.final s trivial hs).1
  · rw [size_of_follows ha, hw.size]

/-- A turn that goes on has completed its step and leads to one that is not completed. -/
theorem turn_onto (hq : h.Quiet) (hu : InProgress w e) (context : γ) :
    (turn h w context).Ends e (after (fun _ _ => True) (Onto w e)) fun _ _ => True := by
  have htold : ∀ (e₁ : Engine σ) (kind : EventKind) (state : WorkflowState),
      (emit h w kind).Ends e₁ (fun _ => after (fun _ _ => True) (Onto w e) (.stop state))
        fun _ _ => True :=
    fun e₁ kind _ => (ends_run (emit h w kind) e₁).mono (fun _ _ _ => trivial) fun _ _ _ => trivial
  apply turn_ends hq h.logs_nil hu.running hu.hasWorkflow
  intro e₁ hw
  exact
    { failed := fun _ => trivial
      again := fun _ _ => trivial
      waits := fun _ _ e' _ _ => htold e' _ _
      ends := fun _ _ _ _ e' _ _ => htold e' _ _
      blocked := fun _ _ _ _ => trivial
      unbound := fun _ _ _ _ _ => trivial
      follows := fun hdone _ t ht hopen e' ha _ =>
        onto_of_worked hu hw hdone (mem_targets_of_next? ht) hopen ha }

/-! ## What becomes less -/

def unfinished (e : Engine σ) (ss : List StepId) : Nat := ss.countP fun s => !(e.step s).isCompleted

/-- How many steps that are not completed can be reached from the one that the workflow is on. -/
def remaining (e : Engine σ) (w : WorkflowId) : Nat :=
  e.unfinished (e.reachable (e.workflow w).current)

def places (e : Engine σ) : List StepId := (List.range e.steps.size).map StepId.mk

/-- One if the current step of the workflow is completed: a turn that does not complete its step. -/
def spare (e : Engine σ) (w : WorkflowId) : Nat := if (e.step (e.workflow w).current).isCompleted then 1 else 0

theorem mem_places {s : StepId} : s ∈ e.places ↔ e.HasStep s := by
  simp only [places, List.mem_map, List.mem_range, HasStep]
  constructor
  · rintro ⟨i, hi, rfl⟩
    exact hi
  · intro hs
    exact ⟨s.index, hs, rfl⟩

theorem nodup_places (e : Engine σ) : e.places.Nodup :=
  List.nodup_range.map fun _ _ h => StepId.mk.inj h

theorem hasStep_of_isCompleted (hs : (e.step s).isCompleted = true) : e.HasStep s := by
  apply Classical.byContradiction
  intro hn
  rw [step_of_not_hasStep hn] at hs
  contradiction

namespace Onto

/-- Among steps that were looked at before, fewer are not completed, if the step that has been left was one
that was not. -/
theorem unfinished_le (ho : Onto w e e') {ss ss' : List StepId} (hsub : ss' ⊆ ss) (hnodup : ss'.Nodup)
    (hcur : (e.workflow w).current ∈ ss) : e'.unfinished ss' + 1 ≤ e.unfinished ss + e.spare w := by
  -- What is still open was open before, so that the lists can be compared by their lengths.
  have hopen : ∀ t ∈ ss'.filter fun s => !(e'.step s).isCompleted,
      t ∈ ss.filter fun s => !(e.step s).isCompleted := by
    intro t ht
    rw [List.mem_filter, Bool.not_eq_true'] at ht ⊢
    refine ⟨hsub ht.1, Bool.eq_false_iff.mpr fun hc => ?_⟩
    rw [ho.keeps t hc] at ht
    exact Bool.noConfusion ht.2
  have hnodup' : (ss'.filter fun s => !(e'.step s).isCompleted).Nodup := hnodup.filter _
  simp only [unfinished, spare, List.countP_eq_length_filter]
  cases hc : (e.step (e.workflow w).current).isCompleted
  case true =>
    have hle := (List.subperm_of_subset hnodup' hopen).length_le
    simp only [if_true]
    omega
  case false =>
    -- The step that has been left counted before, and counts no more.
    have hleft : (e.workflow w).current ∉ ss'.filter fun s => !(e'.step s).isCompleted := by
      rw [List.mem_filter, ho.done]
      exact fun h => Bool.noConfusion h.2
    have hin : (e.workflow w).current ∈ ss.filter fun s => !(e.step s).isCompleted := by
      rw [List.mem_filter, hc]
      exact ⟨hcur, rfl⟩
    have hle := (List.subperm_of_subset (List.nodup_cons.mpr ⟨hleft, hnodup'⟩)
      (List.cons_subset.mpr ⟨hin, hopen⟩)).length_le
    rw [List.length_cons] at hle
    simpa using hle

theorem spare_eq (ho : Onto w e e') : e'.spare w = 0 := by
  unfold spare
  rw [ho.ahead]
  rfl

/-- What the next step leads to, the step before led to. -/
theorem reachable_subset (ho : Onto w e e') :
    e'.reachable (e'.workflow w).current ⊆ e.reachable (e.workflow w).current := by
  intro t ht
  rw [mem_reachable_iff] at ht ⊢
  have hleads : e.Leads (e'.workflow w).current t := by
    unfold Leads at ht ⊢
    simpa only [ho.targets] using ht
  exact Relation.ReflTransGen.head ho.follows hleads

theorem places_eq (ho : Onto w e e') : e'.places = e.places := by
  unfold places
  rw [ho.size]

end Onto

/-- A count that is never nought, and that becomes less whenever the workflow goes on. -/
structure Wanes (w : WorkflowId) (count : Engine σ → Nat) : Prop where
  pos : ∀ e, 0 < count e
  drops : ∀ {e e'}, Onto w e e' → count e' < count e

/-- What can be reached and is not completed becomes less. -/
theorem wanes_remaining (w : WorkflowId) :
    Wanes w fun e : Engine σ => e.remaining w + e.spare w where
  pos e := by
    unfold spare
    cases hc : (e.step (e.workflow w).current).isCompleted
    case true => simp
    case false =>
      have hcur : (e.workflow w).current ∈ e.reachable (e.workflow w).current :=
        mem_reachable_iff.mpr .refl
      have hpos : 0 < e.remaining w := List.countP_pos_iff.mpr ⟨_, hcur, by rw [hc]; rfl⟩
      omega
  drops {e e'} ho := by
    have hle := ho.unfinished_le ho.reachable_subset (reachable_explored e' _).nodup
      (mem_reachable_iff.mpr .refl)
    have hspare := ho.spare_eq
    unfold remaining
    omega

/-- What is there and is not completed becomes less. -/
theorem wanes_places (w : WorkflowId) :
    Wanes w fun e : Engine σ => e.unfinished e.places + e.spare w + 1 where
  pos _ := Nat.succ_pos _
  drops {e e'} ho := by
    have hcur : (e.workflow w).current ∈ e.places :=
      mem_places.mpr ((hasStep_of_size ho.size _).mp (hasStep_of_isCompleted ho.done))
    have hle := ho.unfinished_le (ho.places_eq ▸ List.Subset.refl _) (nodup_places e') hcur
    have hspare := ho.spare_eq
    omega

/-- There are no more steps to complete than there are steps; if the current one is completed, there are
fewer. -/
theorem unfinished_places_le (e : Engine σ) (w : WorkflowId) :
    e.unfinished e.places + e.spare w ≤ e.steps.size := by
  have hlength : e.places.length = e.steps.size := by
    rw [places, List.length_map, List.length_range]
  unfold spare
  split
  · rename_i hc
    have hlt : e.unfinished e.places < e.places.length := by
      refine Nat.lt_of_le_of_ne List.countP_le_length fun heq => ?_
      have hall := List.countP_eq_length.mp heq _ (mem_places.mpr (hasStep_of_isCompleted hc))
      rw [hc] at hall
      contradiction
    omega
  · have hle : e.unfinished e.places ≤ e.places.length := List.countP_le_length
    omega

/-! ## How many turns there are -/

section Counted

variable {count : Engine σ → Nat}

/-- There are no more turns than such a count tells. -/
theorem Laps.le_count {n : Nat} {r : Except Failure WorkflowState × Engine σ}
    (hn : Laps h w context n e r) (hq : h.Quiet) (hu : InProgress w e) (hc : Wanes w count) :
    n ≤ count e := by
  induction hn with
  | stop _ => exact hc.pos _
  | fail _ => exact hc.pos _
  | goOn ht _ ih =>
    have ho := (turn_onto hq hu context).of_ok ht
    have hlt := hc.drops ho
    have hle := ih ho.inProgress
    omega

/-- The traversal comes to a result. -/
theorem exists_laps (context : γ) (hq : h.Quiet) (hc : Wanes w count) (hu : InProgress w e) :
    ∃ n r, Laps h w context n e r := by
  -- By induction on the count, which each turn that goes on lowers.
  induction hk : count e using Nat.strong_induction_on generalizing e with
  | h k ih =>
    rcases ht : (turn h w context).run e with ⟨x | state | _, e'⟩
    · exact ⟨1, _, .fail ht⟩
    · exact ⟨1, _, .stop ht⟩
    · have ho := (turn_onto hq hu context).of_ok ht
      obtain ⟨n, r, hn⟩ := ih (count e') (hk ▸ hc.drops ho) ho.inProgress rfl
      exact ⟨n + 1, r, .goOn ht hn⟩

end Counted

/-! ## What is attempted -/

/-- From one engine to the other each step has been started once and executed once at most, and executed
with the context. -/
def AttemptsOnce (log : σ → List (Attempt γ)) (context : γ) (e e' : Engine σ) : Prop :=
  ∃ new, log e'.host = log e.host ++ new ∧ new.Nodup ∧
    ∀ a ∈ new, a = .start a.step ∨ a = .run a.step context

/-- Of the attempts listed, some were made, in that order and with no others. -/
def Extends (log : σ → List (Attempt γ)) (as : List (Attempt γ)) (e e' : Engine σ) : Prop :=
  ∃ new, log e'.host = log e.host ++ new ∧ new.Sublist as

section Extends

variable {as as' : List (Attempt γ)} {α β : Type}

theorem extends_of_unseen (as : List (Attempt γ)) (hu : Unseen log e e') : Extends log as e e' :=
  ⟨[], Eq.trans hu (List.append_nil _).symm, List.nil_sublist as⟩

theorem extends_one {a : Attempt γ} (ha : log e'.host = log e.host ++ [a]) : Extends log [a] e e' :=
  ⟨[a], ha, List.Sublist.refl _⟩

theorem Extends.mono (ht : Extends log as e e') (hs : as.Sublist as') : Extends log as' e e' := by
  obtain ⟨new, hlog, hnew⟩ := ht
  exact ⟨new, hlog, hnew.trans hs⟩

theorem Extends.trans (ht : Extends log as e e') (ht' : Extends log as' e' e'') :
    Extends log (as ++ as') e e'' := by
  obtain ⟨new, hlog, hnew⟩ := ht
  obtain ⟨new', hlog', hnew'⟩ := ht'
  exact ⟨new ++ new', by rw [hlog', hlog, List.append_assoc], hnew.append hnew'⟩

/-- What is done in sequence attempts what the one and the other attempt. -/
theorem extends_bind {m : Act σ α} {f : α → Act σ β} (hm : m.Always (Extends log as))
    (hf : ∀ a, (f a).Always (Extends log as')) : (m >>= f).Always (Extends log (as ++ as')) := by
  apply always_of_ends
  intro e
  rw [ends_bind]
  refine (hm.ends e).mono (fun a e₁ h₁ => ?_) fun _ e₁ h₁ => h₁.mono (List.sublist_append_left ..)
  exact ((hf a).ends e₁).mono (fun _ _ h₂ => h₁.trans h₂) fun _ _ h₂ => h₁.trans h₂

/-- What comes after and calls no hook of a step attempts nothing more. -/
theorem extends_before {m : Act σ α} {f : α → Act σ β} (hm : m.Always (Extends log as))
    (hf : ∀ a, (f a).Always (Unseen log)) : (m >>= f).Always (Extends log as) := by
  have hbind := extends_bind hm fun a => (hf a).mono fun hu => extends_of_unseen [] hu
  rwa [List.append_nil] at hbind

theorem extends_guarding {m : Act σ α} (hm : m.Always (Extends log as)) :
    (guarding w s m).Always (Extends log as) := by
  apply always_of_ends
  intro e
  apply ends_guarding (hm.ends e)
  intro _ e₁ h₁ _ e₂ ha _
  have hu : Unseen log e₁ e₂ := congrArg log ha.host
  simpa using h₁.trans (extends_of_unseen [] hu)

theorem extends_onlyIf {c : Bool} {m : Act σ Unit} (hm : m.Always (Extends log as)) :
    (onlyIf c m).Always (Extends log as) := by
  intro e
  rw [run_onlyIf]
  split
  · exact hm e
  · exact extends_of_unseen as (refl e)

end Extends

theorem works_unseen : Works (Unseen log) where
  aside _ _ _ _ := rfl
  work _ _ _ _ := rfl

section Recounted

variable (hr : h.Recounts log)
include hr

theorem start_extends : (Engine.start h s).Always (Extends log [.start s]) := by
  apply extends_before ((hr.starting s).mono extends_one)
  intro _
  exact always_get.bind fun _ => (always_failIf _ _).bind fun _ => works_unseen.startStep

theorem execute_extends : (execute h s context).Always (Extends log [.run s context]) := by
  apply always_of_ends
  intro e
  unfold execute
  rw [ends_bind, ends_get]
  split
  · have hpresent : (presentDecision h s context).Always (Extends log [.run s context]) := by
      apply extends_before ((hr.present s context).mono extends_one)
      intro _
      exact Always.bind (fun _ => rfl) fun _ => always_get.bind fun _ => works_unseen.note
    exact (extends_before hpresent fun _ => always_pure _).ends e
  · exact ((hr.execute s context).mono extends_one).ends e

theorem runStep_extends : (runStep h w s context).Always (Extends log [.start s, .run s context]) := by
  have hexecute : (executeStep h w s context).Always (Extends log [.run s context]) := by
    apply extends_before (extends_guarding (execute_extends hr))
    intro o
    exact always_get.bind fun _ => (works_unseen.setOutcome o).onlyIf _
  intro e
  exact extends_bind (extends_onlyIf (extends_guarding (start_extends hr))) (fun _ => extends_onlyIf hexecute) e

/-- A turn attempts the step that the workflow is on, if that is not completed, and no other. -/
theorem turn_extends (w : WorkflowId) (context : γ) (e : Engine σ) :
    Extends log (if (e.step (e.workflow w).current).isCompleted then []
      else [.start (e.workflow w).current, .run (e.workflow w).current context]) e
        ((turn h w context).run e).2 := by
  have hunseen : Sustains (Unseen log) w := sustains_unseen
  have hemit : ∀ kind : EventKind, (emit h w kind).Always (Unseen log) := hunseen.emit hr.observe
  have hrest : ∀ s, (do
      if ((← get).step s).isCompleted then leave h w s else pause h w s :
        Act σ Progress).Always (Unseen log) := by
    intro s
    refine always_get.bind fun e₁ => ?_
    split
    · exact hunseen.leave fun kind _ => hemit kind
    · exact hunseen.pause fun kind _ => hemit kind
  show Extends log _ e (((onlyIf (!(e.step (e.workflow w).current).isCompleted)
    (runStep h w (e.workflow w).current context)) >>= fun _ => _).run e).2
  cases hc : (e.step (e.workflow w).current).isCompleted
  case true => exact extends_of_unseen [] (hrest _ e)
  case false => exact extends_before (runStep_extends hr) (fun _ => hrest _) e

/-- The attempts of one turn. -/
theorem turn_attempts (w : WorkflowId) (context : γ) (e : Engine σ) :
    ∃ new, log ((turn h w context).run e).2.host = log e.host ++ new ∧ new.Nodup ∧
      ∀ a ∈ new, a.step = (e.workflow w).current ∧ (e.step a.step).isCompleted = false ∧
        (a = .start a.step ∨ a = .run a.step context) := by
  obtain ⟨new, hlog, hnew⟩ := turn_extends hr w context e
  refine ⟨new, hlog, ?_, ?_⟩
  · apply hnew.nodup
    split <;> simp
  · intro a ha
    have hmem := hnew.subset ha
    cases hc : (e.step (e.workflow w).current).isCompleted
    case true => simp [hc] at hmem
    case false =>
      simp only [hc, Bool.false_eq_true, if_false, List.mem_cons, List.not_mem_nil, or_false] at hmem
      rcases hmem with rfl | rfl
      · exact ⟨rfl, hc, .inl rfl⟩
      · exact ⟨rfl, hc, .inr rfl⟩

/-- The attempts of a traversal are on steps that were not completed, to start each of them once and to
execute it once at most, with the context given. -/
theorem Laps.attempts {n : Nat} {r : Except Failure WorkflowState × Engine σ}
    (hn : Laps h w context n e r) (hq : h.Quiet) (hu : InProgress w e) :
    ∃ new, log r.2.host = log e.host ++ new ∧ new.Nodup ∧
      ∀ a ∈ new, (e.step a.step).isCompleted = false ∧
        (a = .start a.step ∨ a = .run a.step context) := by
  induction hn with
  | stop ht =>
    obtain ⟨new, hlog, hnodup, hnew⟩ := turn_attempts hr w context _
    rw [ht] at hlog
    exact ⟨new, hlog, hnodup, fun a ha => (hnew a ha).2⟩
  | fail ht =>
    obtain ⟨new, hlog, hnodup, hnew⟩ := turn_attempts hr w context _
    rw [ht] at hlog
    exact ⟨new, hlog, hnodup, fun a ha => (hnew a ha).2⟩
  | goOn ht _ ih =>
    have ho := (turn_onto hq hu context).of_ok ht
    obtain ⟨new, hlog, hnodup, hnew⟩ := turn_attempts hr w context _
    obtain ⟨later, hlater, hnodup', hnew'⟩ := ih ho.inProgress
    rw [ht] at hlog
    refine ⟨new ++ later, by rw [hlater, hlog, List.append_assoc], ?_, fun a ha => ?_⟩
    · -- The step of this turn is completed when the later attempts are made, which are on others.
      rw [List.nodup_append]
      refine ⟨hnodup, hnodup', fun a ha b hb hab => ?_⟩
      have hopen := (hnew' b hb).1
      rw [← hab, (hnew a ha).1, ho.done] at hopen
      contradiction
    · rcases List.mem_append.mp ha with ha | ha
      · exact (hnew a ha).2
      · refine ⟨Bool.eq_false_iff.mpr fun hc => ?_, (hnew' a ha).2⟩
        have hopen := (hnew' a ha).1
        rw [ho.keeps _ hc] at hopen
        contradiction

end Recounted

/-! ## Advancing -/

structure Entered (w : WorkflowId) (e e' : Engine σ) : Prop where
  inProgress : InProgress w e'
  current : (e'.workflow w).current = (e.workflow w).current
  steps : e'.steps = e.steps

theorem enter_entered (hq : h.Quiet) (hw : e.HasWorkflow w) :
    (enter h w).Ends e (fun go e' => go = true → Entered w e e') fun _ _ => True := by
  have hresumed : ∀ t (e₁ : Engine σ), e₁.Alike (e.mapWorkflow w (·.resumed t)) →
      ∀ kind, kind = .started ∨ kind = .running →
        (emit h w kind).Ends e₁ (fun _ e' => true = true → Entered w e e') fun _ _ => True := by
    intro t e₁ ha kind hk
    refine (emit_core hq h.logs_nil hk e₁).mono (fun _ e₂ h₂ _ => ?_) fun _ _ _ => trivial
    have hcore : e₂.core = (e.mapWorkflow w (·.resumed t)).core := h₂.1.trans ha.core
    have hworkflow : e₂.workflow w = (e.workflow w).resumed t := by
      rw [workflow_of_core hcore, workflow_mapWorkflow_self _ hw]
    refine ⟨⟨?_, ?_⟩, ?_, congrArg Core.steps hcore⟩
    · rw [hasWorkflow_of_core hcore, hasWorkflow_mapWorkflow]
      exact hw
    · rw [hworkflow]
      rfl
    · rw [hworkflow]
      rfl
  apply enter_ends
  · intro _ _
    trivial
  · intro _ _ hgo
    contradiction
  · intro hrun _
    exact ⟨⟨hw, hrun⟩, rfl, rfl⟩
  · intro _ e₁ ha _
    exact hresumed _ e₁ ha _ (.inl rfl)
  · intro _ _ e₁ ha _
    exact hresumed _ e₁ ha _ (.inr rfl)

/-- What can be reached depends on the steps alone. -/
theorem reachable_of_steps (hs : e'.steps = e.steps) (first : StepId) :
    e'.reachable first = e.reachable first := by
  have htargets : ∀ s, e'.targets s = e.targets s := fun s =>
    targets_of_successors (congrArg Step.successors (step_of_steps hs s))
  have hexplore : ∀ (fuel : Nat) (seen toVisit : List StepId),
      explore e' fuel seen toVisit = explore e fuel seen toVisit := by
    intro fuel
    induction fuel with
    | zero => exact fun _ _ => rfl
    | succ fuel ih =>
      intro seen toVisit
      cases toVisit with
      | nil => rfl
      | cons s toVisit =>
        rw [explore, explore, htargets]
        exact ih _ _
  unfold reachable edgeEnds
  rw [hs, hexplore]

theorem Entered.remaining_eq (he : Entered w e e') : e'.remaining w = e.remaining w := by
  unfold remaining unfinished
  simp only [he.current, reachable_of_steps he.steps, step_of_steps he.steps]

/-- Where the workflow is set running, advancing it is the traversal. -/
theorem advance_of_laps {n : Nat} {r : Except Failure WorkflowState × Engine σ} (hq : h.Quiet)
    (hent : (enter h w).run e = (.ok true, e')) (hu : InProgress w e') (hn : Laps h w context n e' r) :
    (advance h w context).run e = r := by
  rw [advance_eq_enter, run_bind, hent]
  show (traverse h w context (e'.steps.size + 1 + h.room)).run e' = r
  apply hn.run
  have hle := hn.le_count hq hu (wanes_places w)
  have hsize := e'.unfinished_places_le w
  omega

/-- Whatever the graph of its steps, advancing a workflow with hooks that call no operation of the engine
comes to a result, after no more turns than there are incomplete steps to be reached from the current one,
and one. Each step is started once and executed once at most, with the context given. -/
theorem advance_laps (hq : h.Quiet) (hw : e.HasWorkflow w) (context : γ) :
    (∃ n ≤ e.remaining w + 1, AdvanceLaps h w context n e ((advance h w context).run e)) ∧
      ∀ log : σ → List (Attempt γ), h.Recounts log →
        AttemptsOnce log context e ((advance h w context).run e).2 := by
  have hunseen : ∀ log : σ → List (Attempt γ), h.Recounts log → (enter h w).Always (Unseen log) := by
    intro log hr
    have hs : Sustains (Unseen log) w := sustains_unseen
    exact hs.enter fun kind _ => hs.emit hr.observe kind
  -- Before the first turn nothing is attempted.
  have hnone : ∀ log : σ → List (Attempt γ), h.Recounts log →
      AttemptsOnce log context e ((enter h w).run e).2 := fun log hr =>
    ⟨[], Eq.trans (hunseen log hr e) (List.append_nil _).symm, List.nodup_nil, nofun⟩
  rcases hrun : (enter h w).run e with ⟨x | _ | _, e₁⟩
  · have hres : (advance h w context).run e = (.error x, e₁) := by
      rw [advance_eq_enter, run_bind, hrun]
    rw [hrun] at hnone
    rw [hres]
    exact ⟨⟨0, Nat.zero_le _, .fail hrun⟩, hnone⟩
  · have hres : (advance h w context).run e = (.ok .waiting, e₁) := by
      rw [advance_eq_enter, run_bind, hrun]
      rfl
    rw [hrun] at hnone
    rw [hres]
    exact ⟨⟨0, Nat.zero_le _, .idle hrun⟩, hnone⟩
  · have hent := (enter_entered hq hw).of_ok hrun rfl
    obtain ⟨n, r, hn⟩ := exists_laps context hq (wanes_places w) hent.inProgress
    rw [advance_of_laps hq hrun hent.inProgress hn]
    constructor
    · have hle := hn.le_count hq hent.inProgress (wanes_remaining w)
      have hspare : e₁.spare w ≤ 1 := by
        unfold spare
        split <;> omega
      rw [hent.remaining_eq] at hle
      exact ⟨n, by omega, .go hrun hn⟩
    · intro log hr
      obtain ⟨new, hlog, hnodup, hnew⟩ := hn.attempts hr hq hent.inProgress
      have hfirst := hunseen log hr e
      rw [hrun] at hfirst
      exact ⟨new, by rw [hlog, hfirst], hnodup, fun a ha => (hnew a ha).2⟩

/-! ## Steps in a ring -/

def ring : Engine (List StepId × List (Attempt Unit)) where
  steps := #[(Step.task "Task" "there" none).withSuccessor .complete (some ⟨1⟩),
    (Step.task "Task" "back" none).withSuccessor .complete (some ⟨0⟩)]
  workflows := #[{ key := "ring", owner := none, id := 1, first := ⟨0⟩, current := ⟨0⟩, context := ⟨0⟩ }]
  contexts := #[[]]
  clock := .counter 1 1
  host := ([], [])

/-- Advancing around the ring comes to an end within three turns, with each of the two tasks done once at
most. -/
theorem ring_laps :
    ring.remaining ⟨0⟩ = 2 ∧
      (∃ n ≤ ring.remaining ⟨0⟩ + 1, AdvanceLaps loggingHooks.recounted ⟨0⟩ () n ring
        ((advance loggingHooks.recounted ⟨0⟩ ()).run ring)) ∧
      AttemptsOnce Prod.snd () ring ((advance loggingHooks.recounted ⟨0⟩ ()).run ring).2 := by
  obtain ⟨hlaps, hattempts⟩ := advance_laps (e := ring) (w := ⟨0⟩)
    (Hooks.quiet_recounted quiet_loggingHooks) (by decide) ()
  exact ⟨by decide +kernel, hlaps, hattempts _ (Hooks.recounts_recounted _)⟩

end Engine

end ApprovalFlow
