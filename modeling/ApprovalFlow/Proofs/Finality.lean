import ApprovalFlow.Proofs.OngoingTraversal

/-!
# The end of a workflow

Once a workflow is over nothing may happen to it: its record stays as it is, no step is started or executed
any more, and no `advance` replies that the workflow goes on. With hooks that call the engine again this
holds exactly as long as no hook returns from under which the workflow has ended (`final_iff_unspoiled`):
the traversal that has called the hook goes on as if nothing had happened, and leaves a step behind once
more.
-/

namespace ApprovalFlow.Engine

open Act

variable {σ γ α : Type} {w : WorkflowId} {s : StepId} {e e₁ e' : Engine (Watched σ)}
  {h : Hooks (Watched σ) γ}

section Calling

variable (hh : Watches w h) (hs : Settled w e)
include hh hs

/-- `advance` is refused after the end, and before it is a traversal. -/
theorem advance_stops (context : γ) :
    (advance h w context).Ends e (fun st => Stops w st e) (fun _ => Halts w e) := by
  have hrefl : Halts w e e := ⟨hs, onward_refl e⟩
  have hgoes : (e.workflow w).state.isTerminal = false → Goes w e e := fun hlive =>
    ⟨hs.grounded, onward_refl e, .inl (hs.clean hlive)⟩
  refine advance_enters (fun _ _ => hrefl) (fun hw _ => ?_) (fun hr => ?_) ?_
  · exact (hgoes (by rw [hw]; rfl)).stops .waiting
  · exact process_goes hh (hgoes (by rw [hr]; rfl)) context
  intro hst kind _ t e₁ he
  have hlive : (e.workflow w).state.isTerminal = false := by
    rcases hst with hst | ⟨hst, -⟩
    · rw [hst]; rfl
    · rw [hst]; rfl
  have hg : Goes w e e₁ := (hgoes hlive).changes (f := (·.resumed t)) (hs.clean hlive) rfl he rfl
  -- The listeners only take a look, and the traversal begins from what they leave.
  rw [ends_bind]
  refine ((emit_looks hh kind).ends e₁).mono (fun _ e₂ h₂ => ?_) fun _ e₂ h₂ => ?_
  · exact process_goes hh (hg.passes (s := default) h₂.passes) context
  · exact (hg.passes (s := default) h₂.passes).halts

theorem abort_halts : (abort h w).Ends e (fun _ => Halts w e) (fun _ => Halts w e) := by
  refine abort_ends (fun _ => []) hs.grounded.current (fun _ _ => ⟨hs, onward_refl e⟩) ?_
  intro hlive e₁ h₁ hhost hdone t e₂ he
  have hc := hs.clean hlive
  have hp : Passes w (e.workflow w).current e e₁ :=
    passes_of_same (h₁.lasting hhost) (h₁.workflow w) hhost
  have hg : Goes w e e₁ := Goes.passes ⟨hs.grounded, onward_refl e, .inl hc⟩ hp
  have hends : Halts w e e₂ :=
    hg.ends (f := (·.aborted t)) (hc.same (h₁.workflow w) hhost) (Workflow.current_aborted _ t) he
      (by rw [Workflow.state_aborted]; rfl) hdone
  have haborted : WorkflowState.aborted.isTerminal = true := rfl
  exact (emit_halts hh hends haborted _).mono (fun _ _ h' => h'.toHalts) fun _ _ h' => h'

/-- A reply is noted; while nothing is spoiled it is a truthful one. -/
theorem consult_halts (context : γ) :
    (consult h w context).Ends e (fun _ => Halts w e) (fun _ => Halts w e) := by
  unfold consult
  rw [ends_bind]
  refine (advance_stops hh hs context).mono (fun st e₁ h₁ => ?_) fun _ _ h₁ => h₁
  rw [ends_bind, ends_get, ends_bind]
  let e₂ : Engine (Watched σ) :=
    { e₁ with host := { e₁.host with replies := e₁.host.replies ++ [(st, (e₁.workflow w).state)] } }
  show Halts w e e₂
  have hl : Lasting w e₁ e₂ := by
    refine ⟨id, fun _ => id, fun _ => rfl, fun _ => id, id, fun ht hu r hr => ?_⟩
    rcases List.mem_append.mp hr with hr | hr
    · exact ht hu r hr
    · rw [List.mem_singleton.mp hr]
      exact h₁.ending hu
  refine ⟨⟨h₁.settled.grounded.same hl rfl, ?_⟩, h₁.onward.trans (hl.onward rfl)⟩
  rcases h₁.settled.phase with hc | hr | hb
  · exact .inl ⟨hc.unspoiled, hc.live, hc.unseen⟩
  · refine .inr (.inl ⟨hr.unspoiled, hr.terminal, fun g hg hover => ?_⟩)
    have ha := hr.final g hg hover
    exact ⟨ha.workflow, ha.started, ha.executed⟩
  · exact .inr (.inr ⟨hb.spoiled, hb.terminal, hb.moved⟩)

end Calling

/-! ## Hooks within hooks -/

section Nesting

variable {below : Hooks (Watched σ) γ → Prop} {m : Act (Watched σ) α}

/-- A program keeps the workflow settled if the hooks with which it calls the engine do. -/
theorem Calls.keeps (hb : ∀ h, below h → Watches w h) (hm : Calls below w m) : m.Always (Keeps w) := by
  induction hm with
  | looks h => exact h.mono Looks.keeps
  | setOutcome s o => exact keeps_setOutcome s o
  | resolve s o => exact keeps_resolve s o
  | advance h context hbelow => exact fun e hs => (consult_halts (hb h hbelow) hs context).state
  | abort h hbelow => exact fun e hs => (abort_halts (hb h hbelow) hs).state
  | bind _ _ ihm ihf => exact ihm.bind ihf
  | tryCatch _ _ ihm ihf => exact ihm.tryCatch ihf

theorem Reentrant.watches (hr : Reentrant w h) : Watches w h := by
  induction hr with
  | intro h below nested starting observe execute present ih =>
    refine ⟨starting, observe, fun s context => ?_, fun s context => ?_⟩
    · obtain ⟨hook, hx, hc⟩ := execute s context
      exact ⟨hook, hx, hc.keeps ih⟩
    · obtain ⟨hook, hx, hc⟩ := present s context
      exact ⟨hook, hx, hc.keeps ih⟩

/-- The end of a workflow is final, and told as such by every `advance`, exactly as long as no hook has
returned from under which the workflow has ended. -/
theorem final_iff_unspoiled (hm : Calls (Reentrant w : Hooks (Watched σ) γ → Prop) w m)
    (hg : Grounded w e) (hf : Final w e) (ht : Truthful e) (hu : e.host.spoiled = false) :
    Final w (m.run e).2 ∧ Truthful (m.run e).2 ↔ (m.run e).2.host.spoiled = false := by
  obtain ⟨hs, ho⟩ := hm.keeps (fun _ hr => hr.watches) e (Settled.of_final hg hf hu)
  -- What is settled is final exactly if it is not spoiled, and what is not spoiled stays truthful.
  rw [hs.final_iff]
  exact and_iff_left_of_imp (ho.truthful fun _ => ht)

end Nesting

/-! ## A notice that is withdrawn -/

def idleHooks : Hooks (Watched Unit) Unit where
  starting _ := pure ()
  execute s _ := watch ⟨0⟩ s (pure .proceed)
  present s _ := watch ⟨0⟩ s (pure ())
  observe _ _ := pure ()
  room := 0

/-- The notice is withdrawn while it is drafted; whether the draft fails then is left open. -/
def withdraw (fails : Bool) (s : StepId) : Act (Watched Unit) Outcome := do
  setOutcome s .complete
  abort idleHooks ⟨0⟩
  failIf fails (.raised .business "withdrawn")
  return .proceed

def withdrawing (fails : Bool) : Hooks (Watched Unit) Unit :=
  { idleHooks with
    execute := fun s _ => watch ⟨0⟩ s (if s = ⟨0⟩ then withdraw fails s else pure .proceed) }

/-- The notice is advanced, and once more after a look if that fails. -/
def insist (fails : Bool) : Act (Watched Unit) WorkflowState :=
  tryCatch (consult (withdrawing fails) ⟨0⟩ ()) fun _ => do
    look ⟨0⟩
    consult (withdrawing fails) ⟨0⟩ ()

def notice : Engine (Watched Unit) :=
  ((addWorkflow "notice" ⟨0⟩ none 1 []).run
    { steps := #[(Step.task "Task" "draft" none).withSuccessor .complete (some ⟨1⟩),
        Step.task "Task" "send" none]
      clock := .counter 1 1
      host := { inner := () } }).2

theorem reentrant_idleHooks : Reentrant ⟨0⟩ idleHooks := by
  refine .intro _ (fun _ => False) (fun _ => False.elim) (fun _ => always_pure ())
    (fun _ _ => always_pure ()) (fun s _ => ⟨_, rfl, ?_⟩) fun s _ => ⟨_, rfl, ?_⟩
  · exact .looks (always_pure _)
  · exact .looks (always_pure ())

theorem reentrant_withdrawing (fails : Bool) : Reentrant ⟨0⟩ (withdrawing fails) := by
  refine .intro _ (· = idleHooks) (fun _ hb => hb ▸ reentrant_idleHooks) (fun _ => always_pure ())
    (fun _ _ => always_pure ()) (fun s _ => ⟨_, rfl, ?_⟩) fun s _ => ⟨_, rfl, ?_⟩
  · have habort : Calls (· = idleHooks) ⟨0⟩ (abort idleHooks ⟨0⟩) := .abort idleHooks rfl
    split
    · exact (Calls.setOutcome s _).bind fun _ => habort.bind fun _ =>
        (Calls.looks (always_failIf _ _)).bind fun _ => .looks (always_pure _)
    · exact .looks (always_pure _)
  · exact .looks (always_pure ())

theorem calls_insist (fails : Bool) :
    Calls (Reentrant ⟨0⟩ : Hooks (Watched Unit) Unit → Prop) ⟨0⟩ (insist fails) := by
  have hc : Calls (Reentrant ⟨0⟩ : Hooks (Watched Unit) Unit → Prop) ⟨0⟩
      (consult (withdrawing fails) ⟨0⟩ ()) := .advance _ () (reentrant_withdrawing fails)
  exact hc.tryCatch fun _ => (Calls.looks (looks_look _)).bind fun _ => hc

theorem grounded_notice : Grounded ⟨0⟩ notice where
  hasWorkflow := by decide +kernel
  current := by decide +kernel
  closed s t ht := by
    have hall : ∀ s ∈ [(⟨0⟩ : StepId), ⟨1⟩], ∀ t ∈ notice.targets s, notice.HasStep t := by
      decide +kernel
    by_cases hs : notice.HasStep s
    · refine hall s ?_ t ht
      obtain ⟨_ | _ | i⟩ := s
      · exact List.mem_cons_self
      · exact List.mem_cons_of_mem _ List.mem_cons_self
      · exact absurd hs (Nat.not_lt.mpr (Nat.le_add_left 2 i))
    · rw [targets_of_not_hasStep hs] at ht
      contradiction

/-- If the draft fails, the withdrawal is final. -/
theorem withdrawal_final :
    ((insist true).run notice).2.host.executed = [⟨0⟩] ∧
      (((insist true).run notice).2.workflow ⟨0⟩).state = .aborted ∧
      Final ⟨0⟩ ((insist true).run notice).2 ∧ Truthful ((insist true).run notice).2 := by
  have hfinal := (final_iff_unspoiled (calls_insist true) grounded_notice nofun nofun rfl).mpr
    (by decide +kernel)
  exact ⟨by decide +kernel, by decide +kernel, hfinal⟩

/-- If the draft does not fail, the notice is sent in spite of the withdrawal. -/
theorem withdrawal_ignored :
    ((insist false).run notice).2.host.executed = [⟨0⟩, ⟨1⟩] ∧
      ((insist false).run notice).2.host.replies = [(.running, .aborted)] ∧
      ¬ Final ⟨0⟩ ((insist false).run notice).2 := by
  refine ⟨by decide +kernel, by decide +kernel, fun hf => ?_⟩
  have hseen : ∃ g ∈ ((insist false).run notice).2.host.glimpses,
      g.workflow.state.isTerminal = true ∧ g.workflow.history = [⟨0⟩] := by decide +kernel
  have hmoved : (((insist false).run notice).2.workflow ⟨0⟩).history = [⟨0⟩, ⟨0⟩] := by
    decide +kernel
  obtain ⟨g, hg, hover, hhist⟩ := hseen
  rw [(hf g hg hover).workflow, hhist] at hmoved
  contradiction

end ApprovalFlow.Engine
