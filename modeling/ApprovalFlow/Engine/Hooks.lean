import ApprovalFlow.Engine

/-!
# Hooks

What a step does when it is executed, and what listeners do when they are told of an event, is not the
engine's business: it is given as hooks. A hook is an action, so it may call the engine again, even on
the workflow that is just running it.
-/

namespace ApprovalFlow

/-- What is supplied from outside, for an execution context of type `γ`. -/
structure Hooks (σ γ : Type) where
  /-- Runs before a step starts. -/
  starting : StepId → Act σ Unit
  /-- Executes a step that is no decision. -/
  execute : StepId → γ → Act σ Outcome
  /-- Puts a decision to its actor. -/
  present : StepId → γ → Act σ Unit
  /-- Tells a listener of an event. -/
  observe : ListenerId → Event → Act σ Unit
  /-- How many steps a traversal may complete beyond those that the engine has: only hooks that add
  steps make use of it. -/
  room : Nat

end ApprovalFlow
