import ApprovalFlow.Engine.Management
import ApprovalFlow.Proofs.Action
import Mathlib.Data.List.Induction

/-!
# Runs of operations

A run is a list of operations, each performed in the engine that the one before left, whether that
succeeded or failed. What each operation preserves, where it is permitted, holds along every run that is
permitted (`runs_invariant`).
-/

namespace ApprovalFlow

/-- An operation on an engine. `other` stands for whatever else may be done with one. -/
inductive Operation (σ γ : Type) where
  | advance (w : WorkflowId) (context : γ)
  | abort (w : WorkflowId)
  | resolve (s : StepId) (o : Outcome)
  | reassign (s : StepId) (actor : Option Actor)
  | start (m : ManagerId) (w : WorkflowId) (context : γ)
  | decide (m : ManagerId) (s : StepId) (o : Outcome) (actor : Option Actor) (context : γ)
  | decideQueued (q : QueueId) (s : StepId) (o : Outcome) (actor : Option Actor)
  | reassignQueued (q : QueueId) (s : StepId) (actor : Option Actor)
  | other (action : Act σ Unit)

namespace Engine

variable {σ γ : Type}

def perform (h : Hooks σ γ) : Operation σ γ → Act σ Unit
  | .advance w context => do let _ ← advance h w context
  | .abort w => abort h w
  | .resolve s o => resolve s o
  | .reassign s actor => reassign s actor
  | .start m w context => do let _ ← startManaged h m w context
  | .decide m s o actor context => do let _ ← decide h m s o actor context
  | .decideQueued q s o actor => decideQueued h q s o actor
  | .reassignQueued q s actor => reassignQueued h q s actor
  | .other action => action

def next (h : Hooks σ γ) (e : Engine σ) (op : Operation σ γ) : Engine σ := ((perform h op).run e).2

def runs (h : Hooks σ γ) (e : Engine σ) (ops : List (Operation σ γ)) : Engine σ :=
  ops.foldl (next h) e

/-- The manager does not start the workflow `w`: it has started, or brings an id that is in use. -/
def Refused (m : ManagerId) (w : WorkflowId) (e : Engine σ) : Prop :=
  (e.workflow w).state ≠ .created ∨
    (e.workflow w).id ≠ 0 ∧ (running? e m (e.workflow w).id).isSome = true

/-- Each operation of a run is permitted in the engine in which it is performed. -/
def Along (h : Hooks σ γ) (permitted : Engine σ → Operation σ γ → Prop) :
    Engine σ → List (Operation σ γ) → Prop
  | _, [] => True
  | e, op :: ops => permitted e op ∧ Along h permitted (next h e op) ops

variable {h : Hooks σ γ} {permitted : Engine σ → Operation σ γ → Prop}

@[simp] theorem runs_nil (e : Engine σ) : runs h e [] = e := rfl

theorem runs_append (e : Engine σ) (ops ops' : List (Operation σ γ)) :
    runs h e (ops ++ ops') = runs h (runs h e ops) ops' := by
  unfold runs
  rw [List.foldl_append]

theorem runs_concat (e : Engine σ) (ops : List (Operation σ γ)) (op : Operation σ γ) :
    runs h e (ops ++ [op]) = next h (runs h e ops) op := runs_append e ops [op]

theorem along_append (e : Engine σ) (ops ops' : List (Operation σ γ)) :
    Along h permitted e (ops ++ ops') ↔
      Along h permitted e ops ∧ Along h permitted (runs h e ops) ops' := by
  induction ops generalizing e with
  | nil => simp only [List.nil_append, Along, runs_nil, true_and]
  | cons a ops ih =>
    simp only [List.cons_append, Along, ih, and_assoc]
    exact Iff.rfl

theorem along_concat (e : Engine σ) (ops : List (Operation σ γ)) (op : Operation σ γ) :
    Along h permitted e (ops ++ [op]) ↔
      Along h permitted e ops ∧ permitted (runs h e ops) op := by
  rw [along_append]
  simp only [Along, and_true]

theorem along_of_forall {p : Operation σ γ → Prop} {e : Engine σ} {ops : List (Operation σ γ)}
    (hops : ∀ op ∈ ops, p op) : Along h (fun _ => p) e ops := by
  induction ops generalizing e with
  | nil => trivial
  | cons op ops ih =>
    exact ⟨hops op List.mem_cons_self, ih fun o ho => hops o (List.mem_cons_of_mem op ho)⟩

theorem next_advance (e : Engine σ) (w : WorkflowId) (context : γ) :
    next h e (.advance w context) = ((advance h w context).run e).2 := Act.state_bind_pure _ _ e

/-- What every permitted operation preserves holds after every permitted run. -/
theorem runs_invariant {P : Engine σ → Prop}
    (hstep : ∀ e op, P e → permitted e op → P (next h e op)) {e : Engine σ}
    {ops : List (Operation σ γ)} (he : P e) (ha : Along h permitted e ops) : P (runs h e ops) := by
  induction ops generalizing e with
  | nil => exact he
  | cons op ops ih => exact ih (hstep e op he ha.1) ha.2

/-- What holds of the empty run and of every permitted run with one operation more holds of every
permitted run. -/
theorem runs_induction {P : List (Operation σ γ) → Prop} {e : Engine σ} {ops : List (Operation σ γ)}
    (hnil : P [])
    (hconcat : ∀ ops op, Along h permitted e ops → permitted (runs h e ops) op → P ops → P (ops ++ [op]))
    (ha : Along h permitted e ops) : P ops := by
  induction ops using List.reverseRecOn with
  | nil => exact hnil
  | append_singleton ops op ih =>
    obtain ⟨hops, hop⟩ := (along_concat e ops op).mp ha
    exact hconcat ops op hops hop (ih hops)

end Engine

end ApprovalFlow
