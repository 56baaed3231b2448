import ApprovalFlow.Proofs.Driving
import ApprovalFlow.Proofs.InStep

/-!
# Who decides

A queue has a decision decided only by the actor to whom it is assigned, and leaves no trace of an attempt
that it refuses (`decideQueued_decides`). What else is done with managers, queues and workflows completes
no decision, unless it aborts the workflow that is on it: whoever completes one was entitled to in the
engine as it was just before (`decisions_gated`).
-/

namespace ApprovalFlow

open Act

variable {σ γ : Type}

/-- Listeners call no operation of the engine and never raise. -/
structure Hooks.Discreet (h : Hooks σ γ) : Prop where
  quiet : ∀ l event, (h.observe l event).Always fun e e' => e'.core = e.core
  silent : h.Silent

def Hooks.listening (h : Hooks σ γ) : Hooks σ γ :=
  { h with
    starting := fun _ => pure ()
    execute := fun _ _ => pure .proceed
    present := fun _ _ => pure () }

theorem Hooks.Discreet.quiet_listening {h : Hooks σ γ} (hd : h.Discreet) : h.listening.Quiet where
  starting _ _ := rfl
  execute _ _ _ := rfl
  present _ _ _ := rfl
  observe := hd.quiet

namespace Step

/-- The step is a decision as before, and as far from being completed unless it is `free`. -/
structure Defers (free : Prop) (a b : Step) : Prop where
  decision : b.isDecision = a.isDecision
  completed : ¬free → a.isDecision = true → b.isCompleted = a.isCompleted

variable {free : Prop} {a b c : Step}

theorem defers_refl (a : Step) : Defers free a a := ⟨rfl, fun _ _ => rfl⟩

theorem Defers.trans (h : Defers free a b) (h' : Defers free b c) : Defers free a c where
  decision := h'.decision.trans h.decision
  completed hn hd := (h'.completed hn (h.decision ▸ hd)).trans (h.completed hn hd)

end Step

/-- The operations of managers and queues, advancing and aborting workflows, and giving decisions to other
actors: none that resolves a decision directly. -/
def Operation.Routine : Operation σ γ → Prop
  | .resolve _ _ => False
  | .other _ => False
  | _ => True

namespace Engine

/-! ## Deciding through a queue -/

section Deciding

variable {q : QueueId} {s : StepId} {o : Outcome} {actor : Option Actor} {e e' : Engine σ}

/-- The step `s` of the queue `q` has been given the outcome `o` by its actor; it has left the queue if
that has completed it. -/
structure Decided (q : QueueId) (s : StepId) (o : Outcome) (actor : Option Actor) (e e' : Engine σ) :
    Prop where
  queued : s ∈ (e.queue q).decisions
  unanswered : (e.step s).isCompleted = false
  assigned : (e.step s).actor = actor
  choice : (e.step s).offers o = true ∨ o.same .abort = true
  carries : (e'.step s).outcome = o
  completes : (e'.step s).isCompleted = o.completion
  leaves : (e'.queue q).decisions =
    if (e'.step s).isCompleted then (e.queue q).decisions.filter (· != s) else (e.queue q).decisions
  steps : ∀ t, t ≠ s → e'.step t = e.step t
  queues : ∀ p, p ≠ q → e'.queue p = e.queue p
  workflows : e'.workflows = e.workflows

theorem hasQueue_of_mem (hs : s ∈ (e.queue q).decisions) : e.HasQueue q := by
  apply Classical.byContradiction
  intro hn
  rw [queue_of_not_hasQueue hn] at hs
  exact List.not_mem_nil hs

/-- A decision is resolved with one of its choices or with an abort. -/
theorem resolve_chooses (s : StepId) (o : Outcome) (e : Engine σ) :
    (resolve s o).Ends e (fun _ _ => (e.step s).offers o = true ∨ o.same .abort = true)
      (fun _ _ => True) := by
  simp only [resolve, ends_bind, ends_get, ends_failIf, ends_note]
  cases (e.step s).isDecision
  case false => trivial
  cases (e.step s).offers o <;> cases o.same .abort
  case false.false => trivial
  all_goals exact (ends_run (setOutcome s o) e).mono (fun _ _ _ => by simp) fun _ _ _ => trivial

/-- A queued decision is decided once it has been given its outcome and, if that has completed it, has been
taken out of the queue. -/
theorem Decided.of_resolved {e₁ : Engine σ} {t : Instant} (hs : s ∈ (e.queue q).decisions)
    (hc : (e.step s).isCompleted = false) (hd : (e.step s).isDecision = true)
    (hchoice : (e.step s).offers o = true ∨ o.same .abort = true)
    (h₁ : e₁.core = (e.mapStep s (·.given o t)).core) (hsteps : e'.steps = e₁.steps)
    (hworkflows : e'.workflows = e₁.workflows)
    (hqueue : (e'.queue q).decisions =
      if o.completion then (e₁.queue q).decisions.filter (· != s) else (e₁.queue q).decisions)
    (hqueues : ∀ p, p ≠ q → e'.queue p = e₁.queue p) : Decided q s o (e.step s).actor e e' := by
  have hself : e'.step s = (e.step s).given o t := by
    rw [step_of_steps hsteps, step_of_core h₁, step_mapStep_self _ (hasStep_of_isDecision hd)]
  have hcompletes : (e'.step s).isCompleted = o.completion := by
    rw [hself]
    exact Step.isCompleted_given_eq hc o t
  have hqueue₁ : ∀ p, e₁.queue p = e.queue p := queue_of_queues (congrArg Core.queues h₁)
  refine ⟨hs, hc, rfl, hchoice, ?_, hcompletes, ?_, fun t ht => ?_, fun p hp => ?_, ?_⟩
  · rw [hself]
    exact Step.outcome_given _ o t
  · rw [hqueue, hcompletes, hqueue₁]
  · rw [step_of_steps hsteps, step_of_core h₁, step_mapStep_of_ne _ _ ht]
  · rw [hqueues p hp, hqueue₁]
  · exact hworkflows.trans (congrArg Core.workflows h₁)

/-- A decision is decided through a queue by its actor, or nothing changes. -/
theorem decideQueued_decides {h : Hooks σ γ} (hd : h.Discreet) (q : QueueId) (s : StepId) (o : Outcome)
    (actor : Option Actor) (e : Engine σ) :
    (decideQueued h q s o actor).Ends e (fun _ e' => Decided q s o actor e e')
      (fun _ e' => e' = e) := by
  show (decideQueued h.listening q s o actor).Ends e _ _
  unfold decideQueued requireQueued
  simp only [ends_bind, ends_get]
  cases hmem : isQueued e q s
  case false =>
    rw [Bool.not_false, if_pos rfl, ends_bind]
    unfold numberOf
    rw [ends_bind, ends_get]
    dsimp only
    split <;> exact rfl
  have hs : s ∈ (e.queue q).decisions := List.contains_iff_mem.mp hmem
  rw [Bool.not_true, if_neg Bool.false_ne_true, ends_pure, ends_failIf]
  split
  · exact rfl
  rename_i hactor
  have ha : actor = (e.step s).actor := by simpa using hactor
  subst ha
  refine ((resolve_ends s o e).and (resolve_chooses s o e)).mono ?_ fun _ _ he => he.1
  rintro _ e₁ ⟨⟨hc, hdec, t, he⟩, hchoice⟩
  have hself : e₁.step s = (e.step s).given o t := by
    rw [step_of_core he.core, step_mapStep_self _ (hasStep_of_isDecision hdec)]
  have hc₁ : (e₁.step s).isCompleted = o.completion := by
    rw [hself]
    exact Step.isCompleted_given_eq hc o t
  have hmem₁ : isQueued e₁ q s = true := by
    unfold isQueued
    rw [queue_of_core he.core]
    exact hmem
  -- An outcome that leaves the decision open leaves it in the queue.
  rw [ends_onlyIf, hc₁]
  cases ho : o.completion
  case false =>
    rw [if_neg Bool.false_ne_true]
    exact Decided.of_resolved hs hc hdec hchoice he.core rfl rfl (by rw [ho]; rfl) fun _ _ => rfl
  case true =>
    rw [if_pos rfl]
    unfold dequeue removeQueued
    rw [ends_bind, ends_get, ends_onlyIf, if_pos hmem₁, ends_bind, ends_updateQueue, ends_bind]
    have hdec₁ : (e₁.step s).isDecision = true := by
      rw [hself, Step.isDecision_of_frame (Step.frame_given ..)]
      exact hdec
    refine (numberOf_ends (by exact hdec₁)).mono ?_ fun _ _ => False.elim
    rintro n _ ⟨-, rfl⟩
    refine (emitQueue_ends hd.quiet_listening q s _ _).mono (fun _ e' h' => ?_) fun _ _ h' => ?_
    · apply Decided.of_resolved hs hc hdec hchoice he.core (congrArg Core.steps h')
        (congrArg Core.workflows h')
      · have hq : e₁.HasQueue q := hasQueue_of_mem (List.contains_iff_mem.mp hmem₁)
        rw [queue_of_core h', queue_mapQueue_self q _ hq, ho]
        rfl
      · intro p hp
        rw [queue_of_core h', queue_mapQueue_of_ne q p _ hp]
    · exact absurd hd.silent h'.2

end Deciding

/-! ## What completes no decision -/

/-- No decision has been completed but those of which `free` holds. -/
def Defers (free : StepId → Prop) (e e' : Engine σ) : Prop :=
  ∀ t, Step.Defers (free t) (e.step t) (e'.step t)

section Deferring

variable {h : Hooks σ γ} {free : StepId → Prop} {w : WorkflowId} {s : StepId} {e e' : Engine σ}

instance : IsPreorder (Engine σ) (Defers free) where
  refl e t := Step.defers_refl (e.step t)
  trans _ _ _ h h' t := (h t).trans (h' t)

theorem defers_of_steps (hs : e'.steps = e.steps) : Defers free e e' := by
  intro t
  rw [step_of_steps hs]
  exact Step.defers_refl _

theorem defers_of_core (hc : e'.core = e.core) : Defers free e e' :=
  defers_of_steps (congrArg Core.steps hc)

theorem defers_mapStep {f : Step → Step} (hf : Step.Defers (free s) (e.step s) (f (e.step s))) :
    Defers free e (e.mapStep s f) := by
  intro t
  rw [step_mapStep]
  split
  -- How far a step is free depends on the step, so that this is no relation between steps alone.
  · rename_i hts
    rw [hts.1]
    exact hf
  · exact Step.defers_refl _

theorem Defers.core {e'' : Engine σ} (hd : Defers free e e') (hc : e''.core = e'.core) :
    Defers free e e'' := IsTrans.trans _ _ _ hd (defers_of_core hc)

variable (free w) in
/-- Driving a workflow makes no change that would complete a decision. -/
theorem tolerates_defers : Tolerates (Defers (σ := σ) free) w where
  off hs _ := defers_of_steps hs
  flow _ _ := defers_of_steps rfl
  remark s f e hr := by
    refine defers_mapStep ⟨Step.isDecision_of_frame hr.frame, fun _ _ => ?_⟩
    unfold Step.isCompleted
    rw [hr.state]
  start s t e _ hc := by
    refine defers_mapStep ⟨rfl, fun _ _ => ?_⟩
    rw [hc]
    rfl
  give s o t e _ hd := by
    refine defers_mapStep ⟨Step.isDecision_of_frame (Step.frame_given ..), fun _ hd' => ?_⟩
    rw [hd] at hd'
    contradiction
  bind _ _ _ _ _ := defers_mapStep ⟨rfl, fun _ _ => rfl⟩

theorem defers_reassign {actor : Option Actor} : (reassign s actor : Act σ Unit).Always (Defers free) := by
  refine always_of_ends fun e => (reassign_ends s actor e).mono (fun _ e' he => ?_) fun _ _ he => ?_
  · exact Defers.core (defers_mapStep ⟨rfl, fun _ _ => rfl⟩) he.core
  · rw [he]
    exact refl e

theorem defers_accept (m : ManagerId) : (accept m w : Act σ Unit).Always (Defers free) := by
  have ht := tolerates_defers (σ := σ) free w
  have hmanager : ∀ f : Manager → Manager, (updateManager m f : Act σ Unit).Always (Defers free) :=
    fun f => always_modify fun _ => defers_of_steps rfl
  refine always_get.bind fun e => ?_
  dsimp only
  split
  · refine Always.bind (always_get.bind fun _ => (hmanager _).bind fun _ => always_pure _) fun n => ?_
    exact always_get.bind fun _ => (always_failIf _ _).bind fun _ => ht.updateWorkflow.bind fun _ =>
      ht.bindStep
  · exact always_failIf _ _

variable (hq : h.Quiet)
include hq

theorem defers_observe (l : ListenerId) (event : Event) : (h.observe l event).Always (Defers free) :=
  (hq.observe l event).mono defers_of_core

/-- Deciding through a queue completes at most the decision itself, and only for its actor. -/
theorem decideQueued_defers (q : QueueId) (s : StepId) (o : Outcome) (actor : Option Actor)
    (e : Engine σ) (hfree : s ∈ (e.queue q).decisions → (e.step s).actor = actor → free s) :
    (decideQueued h q s o actor).Ends e (fun _ => Defers free e) (fun _ => Defers free e) := by
  unfold decideQueued requireQueued
  simp only [ends_bind, ends_get]
  cases hmem : isQueued e q s
  case false =>
    rw [Bool.not_false, if_pos rfl, ends_bind]
    exact ((always_numberOf s).ends e).mono (fun _ _ h₁ => h₁) fun _ _ h₁ => h₁
  rw [Bool.not_true, if_neg Bool.false_ne_true, ends_pure, ends_failIf]
  split
  · exact refl e
  rename_i hactor
  have hs : free s := hfree (List.contains_iff_mem.mp hmem) (by simpa using hactor : actor = _).symm
  refine (resolve_ends s o e).mono ?_ fun _ _ h₁ => by rw [h₁]; exact refl e
  rintro _ e₁ ⟨-, -, t, h₁⟩
  have hd₁ : Defers free e e₁ := by
    refine Defers.core (defers_mapStep ⟨?_, fun hn => absurd hs hn⟩) h₁.core
    exact Step.isDecision_of_frame (Step.frame_given ..)
  have hdeq : (dequeue h q s).Always (Defers free) :=
    always_dequeue (fun l event _ => defers_observe hq l event) (fun hs _ _ _ _ => defers_of_steps hs) q s
  exact ((hdeq.onlyIf _).ends e₁).mono (fun _ _ h₂ => IsTrans.trans _ _ _ hd₁ h₂)
    fun _ _ h₂ => IsTrans.trans _ _ _ hd₁ h₂

/-- Aborting a workflow completes at most the decision that it is on. -/
theorem abort_defers (e : Engine σ) (hfree : free (e.workflow w).current) :
    (abort h w).Ends e (fun _ => Defers free e) (fun _ => Defers free e) := by
  apply (tolerates_defers free w).abort hq
  intro t _
  refine defers_mapStep ⟨Step.isDecision_of_frame (Step.frame_given ..), fun hn => ?_⟩
  exact absurd hfree hn

theorem defers_startManaged {m : ManagerId} {context : γ} :
    (startManaged h m w context).Always (Defers free) := by
  have ht := tolerates_defers (σ := σ) free w
  have hregister : (register m w : Act σ Unit).Always (Defers free) :=
    always_get.bind fun _ => Always.bind (always_modify fun _ => defers_of_steps rfl) fun _ =>
      ht.updateWorkflow.bind fun _ => ht.note
  exact always_get.bind fun _ => (always_failIf _ _).bind fun _ => (defers_accept m).bind fun _ =>
    hregister.bind fun _ => ht.advance hq

theorem defers_reassignQueued {q : QueueId} {actor : Option Actor} :
    (reassignQueued h q s actor).Always (Defers free) :=
  (always_requireQueued q s).bind fun _ => always_get.bind fun _ => defers_reassign.bind fun _ =>
    always_emitQueue (fun l event _ => defers_observe hq l event) q s rfl

end Deferring

/-! ## Who is entitled -/

/-- Whether an operation may complete the decision `s`: it is decided, through the queue that it is in, by
the actor to whom it is assigned at the moment, or the workflow that is on it is aborted. -/
def Entitled (e : Engine σ) (s : StepId) : Operation σ γ → Prop
  | .decide m t _ actor _ =>
    t = s ∧ s ∈ (e.queue (e.manager m).queue).decisions ∧ (e.step s).actor = actor
  | .decideQueued q t _ actor => t = s ∧ s ∈ (e.queue q).decisions ∧ (e.step s).actor = actor
  | .abort w => (e.workflow w).current = s
  | _ => False

section Gating

variable {h : Hooks σ γ}

/-- An operation completes no decision that it is not entitled to. -/
theorem next_defers (hq : h.Quiet) (e : Engine σ) {op : Operation σ γ} (hop : op.Routine) :
    Defers (fun s => Entitled e s op) e (next h e op) := by
  unfold next
  cases op with
  | advance w context => exact (((tolerates_defers _ w).advance hq).bind fun _ => always_pure ()) e
  | start m w context => exact ((defers_startManaged hq).bind fun _ => always_pure ()) e
  | reassignQueued q s actor => exact defers_reassignQueued hq e
  | reassign s actor => exact defers_reassign e
  | abort w => exact (abort_defers hq e rfl).state
  | decideQueued q s o actor =>
    exact (decideQueued_defers hq q s o actor e fun hs ha => ⟨rfl, hs, ha⟩).state
  | decide m s o actor context =>
    refine Ends.state ?_
    unfold perform decide
    simp only [ends_bind, ends_get]
    split
    · rw [ends_bind]
      exact ((always_numberOf s).ends e).mono (fun _ _ h₁ => h₁) fun _ _ h₁ => h₁
    · rename_i w _
      rw [ends_bind]
      refine (decideQueued_defers hq _ s o actor e fun hs ha => ⟨rfl, hs, ha⟩).mono (fun _ e₁ h₁ => ?_)
        fun _ _ h₁ => h₁
      exact (((tolerates_defers _ w).advance hq).ends e₁).mono (fun _ _ h₂ => IsTrans.trans _ _ _ h₁ h₂)
        fun _ _ h₂ => IsTrans.trans _ _ _ h₁ h₂
  | resolve | other => exact hop.elim

/-- Only its actor decides a decision through a queue, and without a trace if it is refused; and in a run
nobody else completes one, unless by aborting its workflow. -/
theorem decisions_gated (h : Hooks σ γ) (e : Engine σ) :
    (h.Discreet → ∀ q s o actor, (decideQueued h q s o actor).Ends e
      (fun _ e' => Decided q s o actor e e') (fun _ e' => e' = e)) ∧
    (h.Quiet → ∀ ops : List (Operation σ γ), (∀ op ∈ ops, op.Routine) →
      ∀ past op, past ++ [op] <+: ops → ∀ s,
        ((runs h e past).step s).isDecision = true → ((runs h e past).step s).isCompleted = false →
        ((runs h e (past ++ [op])).step s).isCompleted = true → Entitled (runs h e past) s op) := by
  refine ⟨fun hd q s o actor => decideQueued_decides hd q s o actor e, ?_⟩
  intro hq ops hops past op hpast s hdec hopen hdone
  have hop : op.Routine := hops op (hpast.subset (List.mem_append_right _ List.mem_cons_self))
  apply Classical.byContradiction
  intro hn
  have hkept := (next_defers hq (runs h e past) hop s).completed hn hdec
  rw [runs_concat, hkept, hopen] at hdone
  contradiction

end Gating

def officeMorning : Engine (List StepId) := runs loggingHooks (office 0) (officeDay.take 2)

/-- Bert's attempt at anna's decision changes nothing; hers completes it, as she is entitled to. -/
theorem office_gated :
    (∃ x, (decideQueued loggingHooks ⟨0⟩ ⟨0⟩ .approve (some ⟨"bert"⟩)).run officeMorning =
      (.error x, officeMorning)) ∧
    (∃ e', (decideQueued loggingHooks ⟨0⟩ ⟨0⟩ .approve (some ⟨"anna"⟩)).run officeMorning =
      (.ok (), e') ∧ Decided ⟨0⟩ ⟨0⟩ .approve (some ⟨"anna"⟩) officeMorning e') ∧
    Entitled officeMorning ⟨0⟩
      (.decide ⟨0⟩ ⟨0⟩ .approve (some ⟨"anna"⟩) () : Operation (List StepId) Unit) := by
  have hdiscreet : loggingHooks.Discreet := ⟨fun _ _ _ => rfl, silent_loggingHooks⟩
  have hroutine : ∀ op ∈ officeDay, op.Routine := by
    intro op hop
    simp only [officeDay, List.mem_cons, List.not_mem_nil, or_false] at hop
    rcases hop with rfl | rfl | rfl <;> trivial
  -- What the evaluation has to show, in a form that does not have to evaluate the engine again.
  have hrefused : ∀ (e : Engine (List StepId)) q s o actor,
      ((decideQueued loggingHooks q s o actor).run e).1.toOption = none →
        ∃ x, (decideQueued loggingHooks q s o actor).run e = (.error x, e) := by
    intro e q s o actor hn
    have hends := (decisions_gated loggingHooks e).1 hdiscreet q s o actor
    rcases hr : (decideQueued loggingHooks q s o actor).run e with ⟨x | a, e'⟩
    · exact ⟨x, by rw [hends.of_error hr]⟩
    · rw [hr] at hn
      contradiction
  have hdone : ∀ (e : Engine (List StepId)) q s o actor,
      ((decideQueued loggingHooks q s o actor).run e).1.toOption = some () →
        ∃ e', (decideQueued loggingHooks q s o actor).run e = (.ok (), e') ∧
          Decided q s o actor e e' := by
    intro e q s o actor hn
    have hends := (decisions_gated loggingHooks e).1 hdiscreet q s o actor
    rcases hr : (decideQueued loggingHooks q s o actor).run e with ⟨x | a, e'⟩
    · rw [hr] at hn
      contradiction
    · exact ⟨e', rfl, hends.of_ok hr⟩
  have hmoment : (officeMorning.step ⟨0⟩).isDecision = true ∧
      (officeMorning.step ⟨0⟩).isCompleted = false ∧
      ((runs loggingHooks (office 0) officeDay).step ⟨0⟩).isCompleted = true := by decide +kernel
  have hentitled := (decisions_gated loggingHooks (office 0)).2 quiet_loggingHooks officeDay hroutine
    (officeDay.take 2) _ (List.prefix_refl officeDay) ⟨0⟩ hmoment.1 hmoment.2.1 hmoment.2.2
  exact ⟨hrefused _ _ _ _ _ (by decide +kernel), hdone _ _ _ _ _ (by decide +kernel), hentitled⟩

end Engine

end ApprovalFlow
