import ApprovalFlow.Proofs.Operation
import ApprovalFlow.Proofs.Presenting

/-!
# Decisions are put to their actors once

With hooks that only log how decisions are put to their actors no more than one such call returns for each
decision, as long as the clock does not read the instant that stands for no time, and whether or not decisions
are started and put to their actors by hand (`presented_at_most_once`).
-/

namespace ApprovalFlow

open Act

variable {σ γ : Type}

namespace Engine

variable {h : Hooks σ γ} {log : σ → List Presentation} {w v : WorkflowId} {s t : StepId} {o : Outcome}
  {context : γ} {e e' e'' : Engine σ}

inductive Steers (e : Engine σ) : Operation σ γ → Prop
  | advance {w : WorkflowId} (hw : e.HasWorkflow w) (context : γ) : Steers e (.advance w context)
  | abort (w : WorkflowId) : Steers e (.abort w)
  | resolve (s : StepId) (o : Outcome) : Steers e (.resolve s o)
  | reassign (s : StepId) (actor : Option Actor) : Steers e (.reassign s actor)

/-- What is done with a step by hand: it is started, and a decision that has been started and has not begun
is executed. -/
inductive ByHand (h : Hooks σ γ) (e : Engine σ) : Operation σ γ → Prop
  | start (s : StepId) : ByHand h e (.other (Engine.start h s))
  | execute {s : StepId} (hd : (e.step s).isDecision = true) (hs : (e.step s).isStarted = true)
      (hb : (e.step s).isBegun = false) (context : γ) :
      ByHand h e (.other (do let _ ← execute h s context))

def Handled (h : Hooks σ γ) (e : Engine σ) (op : Operation σ γ) : Prop := Steers e op ∨ ByHand h e op

structure Unpresented (log : σ → List Presentation) (e : Engine σ) : Prop where
  timely : e.clock.Timely
  unbegun : ∀ s, (e.step s).isBegun = false
  unwaiting : ∀ w, (e.workflow w).state ≠ .waiting
  log : log e.host = []

theorem Unpresented.presentable (hu : Unpresented log e) : Presentable log e where
  timely := hu.timely
  started s hb := absurd ((hu.unbegun s).symm.trans hb) nofun
  waiting w hw := absurd hw (hu.unwaiting w)
  returned s := by
    rw [hu.log, hu.unbegun]
    rfl

section Hooked

variable (hh : h.Presents log)
include hh

/-- To advance a workflow puts no decision to its actor but those that are due. What it does so in vain it
ends with, and owes still. -/
theorem advance_raises {r : Except Failure WorkflowState} (hp : Presentable log e) (hw : e.HasWorkflow w)
    (hr : (advance h w context).run e = (r, e')) :
    Presentable log e' ∧
      Puts log (fun x => x.IsDue ∧
        (x.returned = false → (∃ failure, r = .error failure) ∧ e'.Owes w x.step)) e e' := by
  have hends := advance_puts hh hp hw context
  unfold Act.Ends at hends
  rw [hr] at hends
  cases r with
  | ok _ =>
    refine ⟨hends.presentable, hends.puts.mono fun _ hx => ⟨hx.1, fun hn => ?_⟩⟩
    rw [hx.2] at hn
    contradiction
  | error failure =>
    exact ⟨hends.presentable, hends.puts.mono fun _ hx => ⟨hx.1, fun hn => ⟨⟨failure, rfl⟩, hx.2 hn⟩⟩⟩

/-- What drives decisions puts only those to their actors that are due. -/
theorem Steers.presents {op : Operation σ γ} (hop : Steers e op) (hp : Presentable log e) :
    Presentable log (next h e op) ∧ Puts log Presentation.IsDue e (next h e op) := by
  have htacit : ∀ {m : Act σ Unit}, m.Always (Tacit log) →
      Presentable log (m.run e).2 ∧ Puts log Presentation.IsDue e (m.run e).2 := fun hm =>
    ⟨hp.of_tacit (hm e), puts_of_log (hm e).log⟩
  cases hop with
  | advance hw context =>
    rw [next_advance]
    obtain ⟨hp', hputs⟩ := advance_raises hh hp hw rfl
    exact ⟨hp', hputs.mono fun _ hx => hx.1⟩
  | abort w => exact htacit (abort_tacit hh w)
  | resolve s o => exact htacit (resolve_tacit s o)
  | reassign s actor => exact htacit (reassign_tacit s actor)

/-- A decision that has been started and has not begun may be put to its actor by hand. -/
theorem execute_presentable (hp : Presentable log e) (hd : (e.step s).isDecision = true)
    (hs : (e.step s).isStarted = true) (hb : (e.step s).isBegun = false) (context : γ) :
    Presentable log ((execute h s context).run e).2 := by
  refine Act.Ends.state ?_
  unfold execute
  rw [ends_bind, ends_get, if_pos hd, ends_bind]
  refine (presentDecision_ends hh s context e).mono ?_ fun _ _ h₁ => h₁.presentable hp
  rintro _ e₂ ⟨e₁, hl, ha, hr⟩
  exact (hp.put hd hs hb hl ha hr).1

theorem Handled.presentable {op : Operation σ γ} (hop : Handled h e op) (hp : Presentable log e) :
    Presentable log (next h e op) := by
  obtain hop | hop := hop
  · exact (hop.presents hh hp).1
  · cases hop with
    | start s => exact hp.of_tacit (start_tacit hh s e)
    | execute hd hs hb context =>
      show Presentable log ((execute h _ context >>= fun _ => Pure.pure ()).run e).2
      rw [state_bind_pure]
      exact execute_presentable hh hp hd hs hb context

end Hooked

/-- How decisions are put to their actors: once at most, by none of the operations that drive them unless
they are due, and again if it has been done in vain. A workflow waits only for decisions that have been put
to their actors, and stays as it is while it waits. -/
structure Courteous (h : Hooks σ γ) (log : σ → List Presentation) (e : Engine σ) : Prop where
  once : ∀ s, (log e.host).countP (Presentation.isFor s) ≤ 1
  due : ∀ op : Operation σ γ, Steers e op → Puts log Presentation.IsDue e (next h e op)
  waiting : ∀ w, (e.workflow w).state = .waiting →
    (e.step (e.workflow w).current).isDecision = true ∧ (e.step (e.workflow w).current).isBegun = true
  idle : ∀ w context, (e.workflow w).state = .waiting →
    (e.step (e.workflow w).current).isCompleted = false →
    (advance h w context).run e = (.ok .waiting, e)
  vain : ∀ w context r e', e.HasWorkflow w → (advance h w context).run e = (r, e') →
    Puts log (fun x => x.returned = false → (∃ failure, r = .error failure) ∧ e'.Owes w x.step) e e'
  owing : ∀ w s (op : Operation σ γ), e.Owes w s →
    (∃ t o, op = .resolve t o) ∨ (∃ t actor, op = .reassign t actor) →
      ((next h e op).step s).isCompleted = false → (next h e op).Owes w s
  again : ∀ w s context, e.Owes w s → Tries log s e (next h e (.advance w context))

/-- An engine in which decisions know which of them have been put to their actors goes on so. -/
theorem Presentable.courteous (hh : h.Presents log) (hp : Presentable log e) : Courteous h log e where
  once s := by
    rw [hp.returned]
    split <;> decide
  due op hop := (hop.presents hh hp).2
  waiting w hw := ⟨Step.isDecision_of_isBegun (hp.waiting w hw), hp.waiting w hw⟩
  idle w context hw hc := advance_idles hw hc context
  vain w context r e' hw hr := (advance_raises hh hp hw hr).2.mono fun _ hx => hx.2
  owing w s op ho hop hc := ho.after hop hc
  again w s context ho := by
    rw [next_advance]
    exact (advance_tries hh hp ho context).state

/-- Along every run in which decisions are driven, and in which some have been started by hand and executed
by hand once, they are put to their actors as they should be. -/
theorem presented_at_most_once {ops : List (Operation σ γ)} (hh : h.Presents log) (hu : Unpresented log e)
    (hops : Along h (Handled h) e ops) : Courteous h log (runs h e ops) :=
  (runs_invariant (fun _ _ hp hop => hop.presentable hh hp) hu.presentable hops).courteous hh

/-! ## An actor who is busy at first -/

/-- Hooks that log how decisions are put to their actors. The second such call fails. -/
def busyHooks : Hooks (List Presentation) Unit where
  starting _ := Pure.pure ()
  execute _ _ := return .complete
  present s _ := do
    let e ← get
    modify fun e => { e with host := e.host ++ [⟨s, e.step s, e.host.length != 1⟩] }
    failIf (e.host.length == 1) (.raised .business "busy")
  observe _ _ := Pure.pure ()
  room := 0

def twoOpinions : Act (List Presentation) WorkflowId := do
  let s ← addDecision "Decision" "first" (some .system) [.approve] false
  let t ← addDecision "Decision" "second" (some .system) [.approve] true
  addSuccessor s .approve (some t)
  addWorkflow "opinions" s none 1 []

def opinions : Engine (List Presentation) := (twoOpinions.run { clock := .counter 1 1, host := [] }).2

/-- The first decision is started and executed by hand, and approved when the workflow waits for it. The
second one is put to its actor in vain, to another actor then, and waited for. -/
def opining : List (Operation (List Presentation) Unit) :=
  [.other (Engine.start busyHooks ⟨0⟩), .other (do let _ ← execute busyHooks ⟨0⟩ ()), .advance ⟨0⟩ (),
    .advance ⟨0⟩ (), .resolve ⟨0⟩ .approve, .advance ⟨0⟩ (), .reassign ⟨1⟩ (some ⟨"bert"⟩), .advance ⟨0⟩ (),
    .advance ⟨0⟩ ()]

theorem presents_busyHooks : busyHooks.Presents id where
  starting _ := fun e => ⟨rfl, rfl, (List.append_nil _).symm⟩
  execute _ _ := fun e => ⟨rfl, rfl, (List.append_nil _).symm⟩
  present s _ e := by
    unfold busyHooks
    rw [ends_bind, ends_get, ends_bind]
    refine (ends_modifyGet _).mpr ?_
    rw [ends_failIf]
    split
    · rename_i hl
      exact ⟨rfl, rfl, by simp_all⟩
    · rename_i hl
      exact ⟨rfl, rfl, by simp_all⟩
  observe _ _ := fun e => ⟨rfl, rfl, (List.append_nil _).symm⟩

theorem unpresented_opinions : Unpresented id opinions where
  timely n := by
    show (1 : Int) + n * 1 ≠ 0
    omega
  unbegun
    | ⟨0⟩ | ⟨1⟩ => rfl
    | ⟨n + 2⟩ => by
      have hs : ¬opinions.HasStep ⟨n + 2⟩ := Nat.not_lt.mpr (Nat.le_add_left 2 n)
      rw [step_of_not_hasStep hs]
      rfl
  unwaiting
    | ⟨0⟩ => nofun
    | ⟨n + 1⟩ => by
      have hw : ¬opinions.HasWorkflow ⟨n + 1⟩ := Nat.not_lt.mpr (Nat.le_add_left 1 n)
      rw [workflow_of_not_hasWorkflow hw]
      nofun
  log := rfl

/-- Both decisions are put to their actors once, the second one after it has been put to one in vain. -/
theorem opinions_presented :
    Along busyHooks (Handled busyHooks) opinions opining ∧
      (runs busyHooks opinions opining).host.map (fun x => (x.step, x.returned)) =
        [(⟨0⟩, true), (⟨1⟩, false), (⟨1⟩, true)] ∧
      ((runs busyHooks opinions opining).workflow ⟨0⟩).state = .waiting ∧
      Courteous busyHooks id (runs busyHooks opinions opining) := by
  have hops : Along busyHooks (Handled busyHooks) opinions opining := by
    refine ⟨.inr (.start _), .inr (.execute ?_ ?_ ?_ _), .inl (.advance ?_ _), .inl (.advance ?_ _),
      .inl (.resolve ..), .inl (.advance ?_ _), .inl (.reassign ..), .inl (.advance ?_ _),
      .inl (.advance ?_ _), trivial⟩
    all_goals decide +kernel
  exact ⟨hops, by decide +kernel, by decide +kernel,
    presented_at_most_once presents_busyHooks unpresented_opinions hops⟩

end Engine

end ApprovalFlow
