import ApprovalFlow.Proofs.Turns

/-!
# Hooks that call the engine again

Hooks that are run for a workflow may themselves give outcomes to steps, and advance or abort the workflow
that is just running them, several levels deep (`Reentrant`). They are watched: each logs the step for
which it is run, takes a look at the workflow when it returns, and marks the run if the workflow has ended
under it. What `advance` replies is noted, too. Listeners, and the hooks themselves at any time, may take
further looks.
-/

namespace ApprovalFlow

structure Glimpse where
  workflow : Workflow
  steps : Array Step
  executed : List StepId

/-- A host that is watched. A run is spoiled once a hook has returned from under which the workflow has
ended. A reply comes with the state in which the workflow was at that moment. -/
structure Watched (σ : Type) where
  inner : σ
  executed : List StepId := []
  glimpses : List Glimpse := []
  replies : List (WorkflowState × WorkflowState) := []
  spoiled : Bool := false

namespace Engine

open Act

variable {σ γ α β : Type} {w : WorkflowId} {s : StepId} {e e' e'' : Engine (Watched σ)}

def glimpse (e : Engine (Watched σ)) (w : WorkflowId) : Glimpse :=
  ⟨e.workflow w, e.steps, e.host.executed⟩

def look (w : WorkflowId) : Act (Watched σ) Unit := do
  let e ← get
  updateHost fun d => { d with glimpses := d.glimpses ++ [e.glimpse w] }

/-- Watches a hook that is run for the step `s` of the workflow `w`. -/
def watch (w : WorkflowId) (s : StepId) (hook : Act (Watched σ) α) : Act (Watched σ) α := do
  updateHost fun d => { d with executed := d.executed ++ [s] }
  let before ← get
  let a ← hook
  look w
  let now ← get
  onlyIf (!(before.workflow w).state.isTerminal && (now.workflow w).state.isTerminal)
    (updateHost ({ · with spoiled := true }))
  return a

def consult (h : Hooks (Watched σ) γ) (w : WorkflowId) (context : γ) : Act (Watched σ) WorkflowState := do
  let st ← advance h w context
  let e ← get
  updateHost fun d => { d with replies := d.replies ++ [(st, (e.workflow w).state)] }
  return st

/-- Whenever `advance` has replied after the end of the workflow, it has replied that this is over. -/
def Truthful (e : Engine (Watched σ)) : Prop :=
  ∀ r ∈ e.host.replies, r.2.isTerminal = true → r.1.isTerminal = true

structure Looks (w : WorkflowId) (e e' : Engine (Watched σ)) : Prop where
  steps : e'.steps = e.steps
  workflows : e'.workflows = e.workflows
  executed : e'.host.executed = e.host.executed
  replies : e'.host.replies = e.host.replies
  spoiled : e'.host.spoiled = e.host.spoiled
  glimpses : ∃ seen, e'.host.glimpses = e.host.glimpses ++ seen ∧ ∀ g ∈ seen, g = e.glimpse w

/-- Programs of hooks for the workflow `w`, which may call the engine with the hooks `below`. -/
inductive Calls (below : Hooks (Watched σ) γ → Prop) (w : WorkflowId) :
    {α : Type} → Act (Watched σ) α → Prop
  | looks {α : Type} {m : Act (Watched σ) α} (h : m.Always (Looks w)) : Calls below w m
  | setOutcome (s : StepId) (o : Outcome) : Calls below w (setOutcome s o)
  | resolve (s : StepId) (o : Outcome) : Calls below w (resolve s o)
  | advance (h : Hooks (Watched σ) γ) (context : γ) (hb : below h) : Calls below w (consult h w context)
  | abort (h : Hooks (Watched σ) γ) (hb : below h) : Calls below w (abort h w)
  | bind {α β : Type} {m : Act (Watched σ) α} {f : α → Act (Watched σ) β} (hm : Calls below w m)
      (hf : ∀ a, Calls below w (f a)) : Calls below w (m >>= f)
  | tryCatch {α : Type} {m : Act (Watched σ) α} {handle : Failure → Act (Watched σ) α}
      (hm : Calls below w m) (hf : ∀ x, Calls below w (handle x)) : Calls below w (tryCatch m handle)

/-- Watched hooks that may call the engine again on the workflow `w`, a finite number of levels deep. -/
inductive Reentrant (w : WorkflowId) : Hooks (Watched σ) γ → Prop
  | intro (h : Hooks (Watched σ) γ) (below : Hooks (Watched σ) γ → Prop)
      (nested : ∀ h', below h' → Reentrant w h')
      (starting : ∀ s, (h.starting s).Always (Looks w))
      (observe : ∀ l event, (h.observe l event).Always (Looks w))
      (execute : ∀ s context, ∃ hook, h.execute s context = watch w s hook ∧ Calls below w hook)
      (present : ∀ s context, ∃ hook, h.present s context = watch w s hook ∧ Calls below w hook) :
      Reentrant w h

instance : IsPreorder (Engine (Watched σ)) (Looks w) where
  refl e := ⟨rfl, rfl, rfl, rfl, rfl, [], (List.append_nil _).symm, nofun⟩
  trans e₁ e₂ e₃ h h' := by
    obtain ⟨seen, hs, hseen⟩ := h.glimpses
    obtain ⟨seen', hs', hseen'⟩ := h'.glimpses
    -- Looking changes nothing that is seen, so all of it shows the same.
    have hsame : e₂.glimpse w = e₁.glimpse w := by
      unfold Engine.glimpse Engine.workflow
      rw [h.steps, h.workflows, h.executed]
    refine ⟨h'.steps.trans h.steps, h'.workflows.trans h.workflows, h'.executed.trans h.executed,
      h'.replies.trans h.replies, h'.spoiled.trans h.spoiled, seen ++ seen', ?_, fun g hg => ?_⟩
    · rw [hs', hs, List.append_assoc]
    · rcases List.mem_append.mp hg with hg | hg
      · exact hseen g hg
      · rw [← hsame]
        exact hseen' g hg

theorem looks_of_host (hs : e'.steps = e.steps) (hw : e'.workflows = e.workflows)
    (hh : e'.host = e.host) : Looks w e e' :=
  ⟨hs, hw, by rw [hh], by rw [hh], by rw [hh], [], by rw [hh, List.append_nil], nofun⟩

theorem looks_look (w : WorkflowId) : (look w : Act (Watched σ) Unit).Always (Looks w) := by
  intro e
  exact ⟨rfl, rfl, rfl, rfl, rfl, [e.glimpse w], rfl, fun g hg => List.mem_singleton.mp hg⟩

theorem Looks.workflow (h : Looks w e e') (v : WorkflowId) : e'.workflow v = e.workflow v :=
  workflow_of_workflows h.workflows v

theorem Looks.step (h : Looks w e e') (s : StepId) : e'.step s = e.step s :=
  step_of_steps h.steps s

/-! ## What lasts -/

/-- Steps and their successors are there as before, what is completed stays completed, what is spoiled
stays spoiled, and what is not spoiled stays truthful. -/
structure Lasting (w : WorkflowId) (e e' : Engine (Watched σ)) : Prop where
  hasWorkflow : e.HasWorkflow w → e'.HasWorkflow w
  hasStep : ∀ s, e.HasStep s → e'.HasStep s
  targets : ∀ s, e'.targets s = e.targets s
  done : ∀ s, (e.step s).isCompleted = true → (e'.step s).isCompleted = true
  spoiled : e.host.spoiled = true → e'.host.spoiled = true
  truthful : (e.host.spoiled = false → Truthful e) → e'.host.spoiled = false → Truthful e'

structure Onward (w : WorkflowId) (e e' : Engine (Watched σ)) : Prop extends Lasting w e e' where
  stays : (e.workflow w).state.isTerminal = false →
    (e'.step (e.workflow w).current).isCompleted = true ∨
      (e'.workflow w).state.isTerminal = false ∧ (e'.workflow w).current = (e.workflow w).current

theorem lasting_refl (e : Engine (Watched σ)) : Lasting w e e :=
  ⟨id, fun _ => id, fun _ => rfl, fun _ => id, id, id⟩

theorem Lasting.trans (h : Lasting w e e') (h' : Lasting w e' e'') : Lasting w e e'' where
  hasWorkflow hw := h'.hasWorkflow (h.hasWorkflow hw)
  hasStep s hs := h'.hasStep s (h.hasStep s hs)
  targets s := (h'.targets s).trans (h.targets s)
  done s hs := h'.done s (h.done s hs)
  spoiled hs := h'.spoiled (h.spoiled hs)
  truthful ht := h'.truthful (h.truthful ht)

theorem onward_refl (e : Engine (Watched σ)) : Onward w e e := ⟨lasting_refl e, fun h => .inr ⟨h, rfl⟩⟩

theorem Onward.trans (h : Onward w e e') (h' : Onward w e' e'') : Onward w e e'' where
  toLasting := h.toLasting.trans h'.toLasting
  stays hlive := by
    rcases h.stays hlive with hc | ⟨hlive', hcur⟩
    · exact .inl (h'.done _ hc)
    · rw [← hcur]
      exact h'.stays hlive'

/-- While a workflow stays as it is, only lasting changes are needed to go onward. -/
theorem Lasting.onward (h : Lasting w e e') (hw : e'.workflow w = e.workflow w) : Onward w e e' :=
  ⟨h, fun hlive => .inr (by rw [hw]; exact ⟨hlive, rfl⟩)⟩

theorem Looks.onward (h : Looks w e e') : Onward w e e' := by
  refine Lasting.onward ⟨(hasWorkflow_of_workflows h.workflows w).mpr,
    fun s => (hasStep_of_steps h.steps s).mpr, fun s => targets_of_successors (by rw [h.step]),
    fun s hs => ?_, fun hs => ?_, fun ht hs => ?_⟩ (h.workflow w)
  · rw [h.step]
    exact hs
  · rw [h.spoiled]
    exact hs
  · unfold Truthful
    rw [h.replies]
    exact ht (h.spoiled ▸ hs)

/-- A change of a step that keeps its successors and does not undo it. -/
theorem lasting_mapStep (f : Step → Step) (hsucc : (f (e.step s)).successors = (e.step s).successors)
    (hdone : (e.step s).isCompleted = true → (f (e.step s)).isCompleted = true)
    (ha : e'.Alike (e.mapStep s f)) : Lasting w e e' where
  hasWorkflow hw := (hasWorkflow_of_core ha.core w).mpr hw
  hasStep t ht := (hasStep_of_core ha.core t).mpr ((hasStep_mapStep e s t f).mpr ht)
  targets t := by
    refine targets_of_successors ?_
    rw [step_of_core ha.core]
    exact step_mapStep_eq hsucc t
  done t ht := by
    rw [step_of_core ha.core]
    exact step_mapStep_keeps (p := (·.isCompleted = true)) hdone ht
  spoiled hs := by
    rw [ha.host]
    exact hs
  truthful ht := by
    unfold Truthful
    rw [ha.host]
    exact ht

theorem lasting_mapWorkflow (f : Workflow → Workflow) (ha : e'.Alike (e.mapWorkflow w f)) :
    Lasting w e e' where
  hasWorkflow hw := (hasWorkflow_of_core ha.core w).mpr ((hasWorkflow_mapWorkflow e w w f).mpr hw)
  hasStep t ht := (hasStep_of_core ha.core t).mpr ht
  targets t := targets_of_successors (by rw [step_of_core ha.core]; rfl)
  done t ht := by
    rw [step_of_core ha.core]
    exact ht
  spoiled hs := by
    rw [ha.host]
    exact hs
  truthful ht := by
    unfold Truthful
    rw [ha.host]
    exact ht

/-- Work on a step that the host takes no part in lasts. -/
theorem Worked.lasting {seen : Watched σ → List StepId} (h : Worked seen s e e')
    (hh : e'.host = e.host) : Lasting w e e' where
  hasWorkflow hw := (h.hasWorkflow w).mpr hw
  hasStep t ht := (h.hasStep t).mpr ht
  targets := h.targets
  done t ht := by
    by_cases hts : t = s
    · subst hts
      exact (h.self.final ht).1
    · rw [h.others t hts]
      exact ht
  spoiled hs := by
    rw [hh]
    exact hs
  truthful ht := by
    unfold Truthful
    rw [hh]
    exact ht

end Engine

end ApprovalFlow
