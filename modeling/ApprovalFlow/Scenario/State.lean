import ApprovalFlow.Engine
import ApprovalFlow.Record
import ApprovalFlow.Scenario.Command

/-!
# The state of a scenario

What a scenario keeps beside the engine: the names of things in the order of their creation, the scripts of
steps and listeners with how far they have come, the shared maps and the saved records known by name, and
the trace of what hooks saw.
-/

namespace ApprovalFlow.Scenario

inductive Subject where
  | step (s : StepId)
  | workflow (w : WorkflowId)
  | manager (m : ManagerId)
  | queue (q : QueueId)
  deriving Repr, DecidableEq, Inhabited

inductive Answer where
  | value (v : Value)
  | outcome (o : Outcome)
  | outcomes (os : List Outcome)
  deriving Repr, BEq, Inhabited

inductive Sight where
  | executed (step : String) (call : Nat) (context : Value)
  | presented (step : String) (call : Nat) (context : Value)
  | starting (step : String) (call : Nat)
  | told (listener : String) (event : Event)
  | done (label : String) (result : Except Failure Answer)

instance : Inhabited Sight := ⟨.starting "" 0⟩

structure StepScript where
  scripts : Scripts Call
  executed : Nat := 0
  presented : Nat := 0
  started : Nat := 0
  deriving Inhabited

structure ListenerScript where
  name : String
  on : Entries String (List Call)
  deriving Inhabited

/-- What a scenario keeps beside the engine. -/
structure State where
  subjects : Array (String × Subject) := #[]
  scripts : Entries Nat StepScript := []
  listeners : Array ListenerScript := #[]
  contexts : Entries String ContextId := []
  records : Entries String WorkflowRecord := []
  trace : Array Sight := #[]
  deriving Inhabited

namespace State

def find? (s : State) (name : String) : Option Subject :=
  (s.subjects.find? fun (n, _) => n == name).map (·.2)

def name? (s : State) (x : Subject) : Option String :=
  (s.subjects.find? fun (_, y) => y == x).map (·.1)

/-- The name of a step; a question mark stands for a step without one. -/
def stepName (s : State) (x : StepId) : String := (s.name? (.step x)).getD "?"

def workflowName (s : State) (x : WorkflowId) : String := (s.name? (.workflow x)).getD "?"

end State

abbrev Scene (α : Type) := Act State α

def unknownName {α : Type} (name : String) : Scene α :=
  throw (.raised .missingKey name)

def subjectNamed (name : String) : Scene Subject := do
  match (← get).host.find? name with
  | some x => return x
  | none => unknownName name

def kindOf (e : Engine State) : Subject → String
  | .step s => (e.step s).kind
  | .workflow _ => "Workflow"
  | .manager _ => "WorkflowManager"
  | .queue _ => "DecisionQueue"

def lacking {α : Type} (x : Subject) (member : String) : Scene α := do
  throw (.lacking (kindOf (← get) x) member)

/-- The step of a name. Of another thing the member is asked in vain. -/
def stepNamed (name member : String) : Scene StepId := do
  match ← subjectNamed name with
  | .step s => return s
  | x => lacking x member

def stepNamed? (name : Option String) (member : String) : Scene (Option StepId) :=
  match name with
  | none => pure none
  | some name => some <$> stepNamed name member

def workflowNamed (name member : String) : Scene WorkflowId := do
  match ← subjectNamed name with
  | .workflow w => return w
  | x => lacking x member

def managerNamed (name member : String) : Scene ManagerId := do
  match ← subjectNamed name with
  | .manager m => return m
  | x => lacking x member

def queueOf? (e : Engine State) : Subject → Option QueueId
  | .queue q => some q
  | .manager m => some (e.manager m).queue
  | _ => none

def queueNamed (name member : String) : Scene QueueId := do
  let x ← subjectNamed name
  match queueOf? (← get) x with
  | some q => return q
  | none => lacking x member

/-- The queue of a name that is used as a collection. Another thing is none, which `complaint` says of its
kind. -/
def collectionNamed (name : String) (complaint : String → String) : Scene QueueId := do
  let x ← subjectNamed name
  let e ← get
  match queueOf? e x with
  | some q => return q
  | none => throw (.raised .wrongType (complaint (kindOf e x)))

def listenerNamed (name : String) : Scene ListenerId := do
  match (← get).host.listeners.findIdx? (fun l => l.name == name) with
  | some i => return ⟨i⟩
  | none => unknownName name

def resolveDraft (d : Draft) : Scene Value := do
  Act.ofExcept (d (← get).catalog)

def resolveDrafts (drafts : List (String × Draft)) : Scene (List (String × Value)) :=
  drafts.mapM fun (name, d) => do return (name, ← resolveDraft d)

def giveName (name : String) (x : Subject) : Scene Unit :=
  Engine.updateHost fun s => { s with subjects := s.subjects.push (name, x) }

def see (x : Sight) : Scene Unit :=
  Engine.updateHost fun s => { s with trace := s.trace.push x }

/-- The context that is meant. One known by its own name is made when it is first named. -/
def contextNamed : ContextRef → Scene ContextId
  | .named name => do
    match Entries.get? name (← get).host.contexts with
    | some c => return c
    | none =>
      let c ← Engine.addContext
      Engine.updateHost fun s => { s with contexts := Entries.put name c s.contexts }
      return c
  | .ofWorkflow name => do
    let w ← workflowNamed name "context"
    return ((← get).workflow w).context

end ApprovalFlow.Scenario
