import ApprovalFlow.Clock
import ApprovalFlow.Logging.Routing
import ApprovalFlow.Workflow

/-!
# The engine

All that the engine keeps: steps, workflows, queues, managers and contexts, each known by its place; the
catalog of outcomes; the clock; the journal of what was told to loggers; and a host, which belongs to
whoever supplies the hooks and which the engine itself never touches.

An action is a change of the engine that gives a result or fails. An action that fails leaves the engine
as far as it came: `Act` keeps the engine in either case.
-/

namespace ApprovalFlow

open Logging (Note Level)

/-- The engine, with a host of type `σ`. -/
structure Engine (σ : Type) where
  steps : Array Step := #[]
  workflows : Array Workflow := #[]
  queues : Array DecisionQueue := #[]
  managers : Array Manager := #[]
  contexts : Array Context := #[]
  catalog : Catalog := .builtIn
  /-- How many decisions have been made; they are numbered from one. -/
  decisions : Nat := 0
  clock : Clock
  journal : Array Note := #[]
  host : σ

/-- An action: what it results in, and the engine it leaves. -/
def Act (σ α : Type) : Type := Engine σ → Except Failure α × Engine σ

namespace Act

variable {σ α β : Type}

instance : Monad (Act σ) where
  pure a := fun e => (.ok a, e)
  bind m f := fun e =>
    match m e with
    | (.ok a, e) => f a e
    | (.error x, e) => (.error x, e)

instance : MonadStateOf (Engine σ) (Act σ) where
  get := fun e => (.ok e, e)
  set e := fun _ => (.ok (), e)
  modifyGet f := fun e => let (a, e) := f e; (.ok a, e)

instance : MonadExceptOf Failure (Act σ) where
  throw x := fun e => (.error x, e)
  tryCatch m handle := fun e =>
    match m e with
    | (.ok a, e) => (.ok a, e)
    | (.error x, e) => handle x e

instance : Inhabited (Act σ α) := ⟨throw .exhausted⟩

def run (m : Act σ α) (e : Engine σ) : Except Failure α × Engine σ := m e

@[simp] theorem run_pure (a : α) (e : Engine σ) : (pure a : Act σ α).run e = (.ok a, e) := rfl

@[simp] theorem run_throw (x : Failure) (e : Engine σ) :
    (throw x : Act σ α).run e = (.error x, e) := rfl

@[simp] theorem run_get (e : Engine σ) : (get : Act σ (Engine σ)).run e = (.ok e, e) := rfl

@[simp] theorem run_modify (f : Engine σ → Engine σ) (e : Engine σ) :
    (modify f : Act σ Unit).run e = (.ok (), f e) := rfl

@[simp] theorem run_modifyGet (f : Engine σ → α × Engine σ) (e : Engine σ) :
    (modifyGet f : Act σ α).run e = (.ok (f e).1, (f e).2) := rfl

theorem run_bind (m : Act σ α) (f : α → Act σ β) (e : Engine σ) :
    (m >>= f).run e =
      match m.run e with
      | (.ok a, e) => (f a).run e
      | (.error x, e) => (.error x, e) := rfl

theorem run_tryCatch (m : Act σ α) (handle : Failure → Act σ α) (e : Engine σ) :
    (tryCatch m handle).run e =
      match m.run e with
      | (.ok a, e) => (.ok a, e)
      | (.error x, e) => (handle x).run e := rfl

private theorem id_map (m : Act σ α) : id <$> m = m := by
  funext e
  show (match m e with | (.ok a, e) => _ | (.error x, e) => _) = m e
  rcases m e with ⟨_ | _, _⟩ <;> rfl

private theorem bind_assoc (m : Act σ α) (f : α → Act σ β) (g : β → Act σ δ) :
    m >>= f >>= g = m >>= fun a => f a >>= g := by
  funext e
  show (match (match m e with | (.ok a, e) => f a e | (.error x, e) => (.error x, e)) with
      | (.ok b, e) => g b e
      | (.error x, e) => (.error x, e)) =
    (match m e with
      | (.ok a, e) => (match f a e with | (.ok b, e) => g b e | (.error x, e) => (.error x, e))
      | (.error x, e) => (.error x, e))
  rcases m e with ⟨_ | _, _⟩ <;> rfl

instance : LawfulMonad (Act σ) :=
  LawfulMonad.mk' (Act σ) id_map (fun _ _ => rfl) bind_assoc

def attempt (m : Act σ α) : Act σ (Except Failure α) := fun e =>
  let (r, e) := m e
  (.ok r, e)

def failIf (c : Bool) (x : Failure) : Act σ Unit := if c then throw x else pure ()

theorem run_failIf (c : Bool) (x : Failure) (e : Engine σ) :
    (failIf c x).run e = if c then (.error x, e) else (.ok (), e) := by
  cases c <;> rfl

def onlyIf (c : Bool) (m : Act σ Unit) : Act σ Unit := if c then m else pure ()

theorem run_onlyIf (c : Bool) (m : Act σ Unit) (e : Engine σ) :
    (onlyIf c m).run e = if c then m.run e else (.ok (), e) := by
  cases c <;> rfl

def ofExcept : Except Failure α → Act σ α
  | .ok a => pure a
  | .error x => throw x

end Act

namespace Engine

variable {σ : Type}

/-! ## Reading -/

/-- The step at a place; a place without one reads as a blank step. -/
def step (e : Engine σ) (s : StepId) : Step := e.steps.getD s.index default

def workflow (e : Engine σ) (w : WorkflowId) : Workflow := e.workflows.getD w.index default

def queue (e : Engine σ) (q : QueueId) : DecisionQueue := e.queues.getD q.index default

def manager (e : Engine σ) (m : ManagerId) : Manager := e.managers.getD m.index default

def context (e : Engine σ) (c : ContextId) : Context := e.contexts.getD c.index default

/-! ## Changing -/

def updateStep (s : StepId) (f : Step → Step) : Act σ Unit :=
  modify fun e => { e with steps := e.steps.modify s.index f }

def updateWorkflow (w : WorkflowId) (f : Workflow → Workflow) : Act σ Unit :=
  modify fun e => { e with workflows := e.workflows.modify w.index f }

def updateQueue (q : QueueId) (f : DecisionQueue → DecisionQueue) : Act σ Unit :=
  modify fun e => { e with queues := e.queues.modify q.index f }

def updateManager (m : ManagerId) (f : Manager → Manager) : Act σ Unit :=
  modify fun e => { e with managers := e.managers.modify m.index f }

def updateContext (c : ContextId) (f : Context → Context) : Act σ Unit :=
  modify fun e => { e with contexts := e.contexts.modify c.index f }

def updateHost (f : σ → σ) : Act σ Unit :=
  modify fun e => { e with host := f e.host }

def addStep (s : Step) : Act σ StepId :=
  modifyGet fun e => (⟨e.steps.size⟩, { e with steps := e.steps.push s })

def addContext : Act σ ContextId :=
  modifyGet fun e => (⟨e.contexts.size⟩, { e with contexts := e.contexts.push [] })

def addQueue : Act σ QueueId :=
  modifyGet fun e => (⟨e.queues.size⟩, { e with queues := e.queues.push {} })

def takeNumber : Act σ Nat :=
  modifyGet fun e => (e.decisions + 1, { e with decisions := e.decisions + 1 })

def readClock : Act σ Instant :=
  modifyGet fun e => (e.clock.now, { e with clock := e.clock.tick })

def note (logger : String) (level : Level) (text : String) (extras : Entries String Value) :
    Act σ Unit :=
  modify fun e => { e with journal := e.journal.push ⟨logger, level, .text text, [], extras⟩ }

def defineOutcome (key : String) (completion : Bool) (ok : Option Bool) (messageKey : Option String) :
    Act σ Outcome := do
  let e ← get
  let (catalog, o) ← Act.ofExcept (e.catalog.define key completion ok messageKey)
  modify fun e => { e with catalog }
  return o

def resolveOutcome (r : OutcomeRef) : Act σ Outcome := do
  Act.ofExcept (r.resolve (← get).catalog)

end Engine

end ApprovalFlow
