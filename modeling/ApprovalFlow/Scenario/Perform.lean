import ApprovalFlow.Engine.Approval
import ApprovalFlow.Record.Document
import ApprovalFlow.Scenario.State

/-!
# Performing commands

`perform` carries out one command with given hooks. `hooks` ties the knot: the hooks of level `n + 1`
follow the scripts and perform the commands in them with the hooks of level `n`. So the level bounds how
deeply calls of the engine from within hooks may be nested.
-/

namespace ApprovalFlow.Scenario

open Engine

abbrev ScriptHooks := Hooks State Value

def done : Answer := .value .null

def nameAnswer : Option String → Answer
  | some name => .value (.text name)
  | none => .value .null

def namesAnswer (names : List String) : Answer := .value (.list (names.map .text))

/-- The name of the kind of a new step. Decisions with scripts are a kind of their own. -/
def kindName (kind : StepKind) (scripts : Scripts Call) : String :=
  let scripted := if scripts.present.isSome || scripts.starting.isSome then "Scripted" else ""
  match kind with
  | .plain => "ScriptedStep"
  | .task => "ScriptedTask"
  | .decision => scripted ++ "Decision"
  | .simple => scripted ++ "SimpleDecision"
  | .notification => scripted ++ "SimpleNotification"

def makeStep (kind : StepKind) (kindName key : String) (actor : Option Actor) (reassignable : Bool)
    (outcomes : List Outcome) : Scene StepId :=
  match kind with
  | .plain => addStep { kind := kindName, key, actor }
  | .task => addTask kindName key actor
  | .decision => addDecision kindName key actor outcomes reassignable
  | .simple => addSimpleDecision kindName key actor reassignable
  | .notification => addNotification kindName key actor

def makeChain (stem : String) (length : Nat) : Scene Unit := do
  let tasks ← (List.range length).mapM fun i => do
    let s ← addTask "ScriptedTask" (stem ++ "." ++ toString i) none
    giveName (stem ++ toString i) (.step s)
    return s
  (tasks.zip (tasks.drop 1)).forM fun (s, next) => setSuccessor s (some next)

/-- Gives names to those of some steps that have none: the workflow's name and a number. -/
def nameBuilt (name : String) (steps : List StepId) : Scene Unit := do
  let e ← get
  let unnamed := steps.filter fun s => (e.host.name? (.step s)).isNone
  (unnamed.zipIdx 1).forM fun (s, i) => giveName (name ++ "#" ++ toString i) (.step s)

def build (m : ManagerId) (name : String) (ref : PlanRef) : Scene Answer := do
  let preparation ← stepNamed? ref.preparation "set_successor"
  let completion ← stepNamed? ref.completion "set_workflow"
  let facts ← resolveDrafts ref.facts
  let w ← addApprovalWorkflow m
    { submitter := ref.submitter, key := ref.key, preparation, decisionKey := ref.decisionKey,
      facts := facts.map fun (key, v) => ⟨key, v⟩, completion, rejectedKey := ref.rejectedKey }
  giveName name (.workflow w)
  let e ← get
  let steps := e.reachable (e.workflow w).first
  nameBuilt name steps
  let e ← get
  let shown := steps.map fun s =>
    Value.list [.text (e.host.stepName s), .text (e.step s).kind, .text (e.step s).key]
  return .value (.list shown)

def makeListener (name : String) (on : Entries String (List Call)) : Scene ListenerId :=
  modifyGet fun e =>
    (⟨e.host.listeners.size⟩,
      { e with host := { e.host with listeners := e.host.listeners.push ⟨name, on⟩ } })

def listenTo (target : String) (l : ListenerId) : Scene Unit := do
  match (← get).host.find? target with
  | some (.workflow w) => Engine.listenTo w (.observer l)
  | _ => listenToQueue (← queueNamed target "add_listener") l

def perform (h : ScriptHooks) : Command Call → Scene Answer
  | .makeStep name kind key actor reassignable outcomes scripts => do
    let outcomes ← outcomes.mapM resolveOutcome
    let s ← makeStep kind (kindName kind scripts) key actor reassignable outcomes
    updateHost fun st => { st with scripts := st.scripts ++ [(s.index, { scripts })] }
    giveName name (.step s)
    return done
  | .makeChain stem length => do
    makeChain stem length
    return done
  | .addSuccessor step outcome target => do
    let s ← stepNamed step "add_successor"
    let o ← resolveOutcome outcome
    let t ← stepNamed? target "set_workflow"
    addSuccessor s o t
    return done
  | .setSuccessor step target => do
    let s ← stepNamed step "set_successor"
    let t ← stepNamed? target "set_workflow"
    setSuccessor s t
    return done
  | .getSuccessor step outcome => do
    let s ← stepNamed step "get_successor"
    let o ← resolveOutcome outcome
    let e ← get
    return nameAnswer (((e.step s).next? o).map e.host.stepName)
  | .available step => do
    let s ← stepNamed step "available_outcomes"
    return .outcomes ((← get).step s).available
  | .permits step outcome => do
    let s ← stepNamed step "permits"
    let o ← resolveOutcome outcome
    return .value (.bool (((← get).step s).permits o))
  | .startStep step => do
    let s ← stepNamed step "start"
    Engine.start h s
    return done
  | .execute step context => do
    let s ← stepNamed step "execute"
    let o ← Engine.execute h s (← resolveDraft context)
    return .value (.text o.key)
  | .setOutcome step outcome => do
    let s ← stepNamed step "set_outcome"
    let o ← resolveOutcome outcome
    setOutcome s o
    return done
  | .resolve step outcome => do
    let s ← stepNamed step "resolve"
    let o ← resolveOutcome outcome
    resolve s o
    return done
  | .acknowledge step => do
    acknowledge (← stepNamed step "acknowledge")
    return done
  | .reassign step actor => do
    reassign (← stepNamed step "reassign") actor
    return done
  | .addError step message => do
    addError (← stepNamed step "add_error") message
    return done
  | .addFact step key value => do
    let s ← stepNamed step "add_fact"
    addFact s ⟨key, ← resolveDraft value⟩
    return done
  | .bind step id context => do
    let s ← stepNamed step "set_workflow"
    let c ← contextNamed context
    bindStep s id c
    return done
  | .sharedContext step => do
    let c ← contextOf (← stepNamed step "workflow_context")
    return .value (.object ((← get).context c))
  | .sameContext step context => do
    let s ← stepNamed step "workflow_context"
    let c ← contextNamed context
    return .value (.bool ((← contextOf s) == c))
  | .setShared step name value => do
    let s ← stepNamed step "workflow_context"
    setShared s name (← resolveDraft value)
    return done
  | .describe name => do
    let e ← get
    match e.host.find? name with
    | some (.step s) => return .value (.text (e.step s).describe)
    | some (.workflow w) => return .value (.text (e.workflow w).describe)
    | _ => unknownName name
  | .reachable first => do
    match ← stepNamed? first "available_outcomes" with
    | none => return namesAnswer []
    | some s =>
      let e ← get
      return namesAnswer ((e.reachable s).map e.host.stepName)
  | .define key completion ok messageKey => do
    return .outcome (← defineOutcome key completion ok messageKey)
  | .makeWorkflow name key first owner id context => do
    let s ← stepNamed first "set_workflow"
    let w ← addWorkflow key s owner id (Entries.ofList (← resolveDrafts context))
    giveName name (.workflow w)
    return done
  | .setId workflow id => do
    match ← subjectNamed workflow with
    | .workflow w => assignId w id
    | _ => pure ()
    return done
  | .advance workflow context => do
    let w ← workflowNamed workflow "advance"
    let state ← Engine.advance h w (← resolveDraft context)
    return .value (.text state.name)
  | .abort workflow => do
    Engine.abort h (← workflowNamed workflow "abort")
    return done
  | .getAttribute workflow name fallback => do
    let w ← workflowNamed workflow "get_attribute"
    let fallback ← resolveDraft fallback
    return .value ((attribute? (← get) w name).getD fallback)
  | .setAttribute workflow name value => do
    let w ← workflowNamed workflow "set_attribute"
    setAttribute w name (← resolveDraft value)
    return done
  | .addMessageArgument workflow value => do
    let w ← workflowNamed workflow "add_message_argument"
    addMessageArgument w (← resolveDraft value)
    return done
  | .record workflow => do
    let w ← workflowNamed workflow "to_record"
    let r ← Act.ofExcept ((← get).recordWorkflow w)
    return .value (← Act.ofExcept r.document)
  | .saveRecord workflow name => do
    let w ← workflowNamed workflow "to_record"
    let r ← Act.ofExcept ((← get).recordWorkflow w)
    updateHost fun s => { s with records := Entries.put name r s.records }
    return done
  | .dumpRecord name => do
    match Entries.get? name (← get).host.records with
    | some r => return .value (← Act.ofExcept r.document)
    | none => unknownName name
  | .listen name target on => do
    let l ← makeListener name on
    listenTo target l
    return done
  | .relisten target listener => do
    listenTo target (← listenerNamed listener)
    return done
  | .unlisten workflow listener => do
    let w ← workflowNamed workflow "remove_listener"
    Engine.unlisten w (.observer (← listenerNamed listener))
    return done
  | .makeQueue name => do
    giveName name (.queue (← addQueue))
    return done
  | .enqueue queue step => do
    let q ← queueNamed queue "add"
    enqueue h q (← stepNamed step "decision_id")
    return done
  | .dequeue queue step => do
    let q ← queueNamed queue "remove"
    match ← subjectNamed step with
    | .step s => dequeue h q s
    | _ => pure ()
    return done
  | .isQueued queue step => do
    let q ← collectionNamed queue fun kind => s!"argument of type '{kind}' is not iterable"
    match ← subjectNamed step with
    | .step s => return .value (.bool (Engine.isQueued (← get) q s))
    | _ => return .value (.bool false)
  | .queueLength queue => do
    let q ← collectionNamed queue fun kind => s!"object of type '{kind}' has no len()"
    return .value (.int ((← get).queue q).decisions.length)
  | .queued queue => do
    let q ← queueNamed queue "decisions"
    let e ← get
    return namesAnswer ((e.queue q).decisions.map e.host.stepName)
  | .queuedFor queue actor => do
    let q ← queueNamed queue "actor_decisions"
    let e ← get
    return namesAnswer ((decisionsOf e q actor).map e.host.stepName)
  | .findQueued queue number => do
    let q ← queueNamed queue "get"
    let found ← findQueued? q number
    return nameAnswer (found.map (← get).host.stepName)
  | .decideQueued queue step outcome actor => do
    let q ← queueNamed queue "decide"
    let s ← stepNamed step "decision_id"
    let o ← resolveOutcome outcome
    decideQueued h q s o actor
    return done
  | .reassignQueued queue step actor => do
    let q ← queueNamed queue "reassign"
    reassignQueued h q (← stepNamed step "decision_id") actor
    return done
  | .makeManager name sources approvers => do
    let arguments ← match approvers with
      | some d => pure [(Settings.approversName.own, ← resolveDraft d)]
      | none => pure []
    let settings ← Act.ofExcept ((Settings.load { sources with arguments }).mapError .misconfigured)
    giveName name (.manager (← addManager settings))
    return done
  | .approver manager key => do
    let m ← managerNamed manager "get_approver"
    match ((← get).manager m).settings.approver? key with
    | some a => return .value (.actor a)
    | none => return done
  | .start manager workflow context => do
    let m ← managerNamed manager "start"
    let w ← workflowNamed workflow "id"
    let state ← startManaged h m w (← resolveDraft context)
    return .value (.text state.name)
  | .decide manager step outcome actor context => do
    let m ← managerNamed manager "decide"
    let s ← stepNamed step "workflow_id"
    let o ← resolveOutcome outcome
    let state ← Engine.decide h m s o actor (← resolveDraft context)
    return .value (.text state.name)
  | .getWorkflow manager id => do
    let m ← managerNamed manager "get_workflow"
    let e ← get
    return nameAnswer ((running? e m id).map e.host.workflowName)
  | .workflowsOf manager owner => do
    let m ← managerNamed manager "owner_workflows"
    let e ← get
    return namesAnswer ((workflowsOf e m owner).map e.host.workflowName)
  | .build manager name plan => do
    build (← managerNamed manager "get_approver") name plan

/-- Performs the commands of a call, and raises its failure. A failure of a command ends the call, unless
it is caught. -/
def runCall (h : ScriptHooks) (c : Call) : Scene Unit := do
  c.commands.forM fun (command, caught) => do
    let r ← (perform h command).attempt
    see (.done command.label r)
    match r with
    | .ok _ => return
    | .error f => if caught then return else throw f
  match c.raises with
  | some r => throw r.toFailure
  | none => return

def scriptOf (s : StepId) : Scene StepScript := do
  return (Entries.get? s.index (← get).host.scripts).getD { scripts := {} }

def count (s : StepId) (f : StepScript → StepScript) : Scene Unit :=
  updateHost fun st =>
    match Entries.get? s.index st.scripts with
    | some script => { st with scripts := Entries.put s.index (f script) st.scripts }
    | none => { st with scripts := st.scripts ++ [(s.index, f { scripts := {} })] }

/-- The call with a number in a script whose last call is repeated. -/
def repeating? (calls : List Call) (n : Nat) : Option Call :=
  calls[min n (calls.length - 1)]?

/-- Executes a step by its script; without one it completes. -/
def executeScripted (h : ScriptHooks) (s : StepId) (context : Value) : Scene Outcome := do
  let script ← scriptOf s
  let n := script.executed
  count s ({ · with executed := n + 1 })
  see (.executed ((← get).host.stepName s) n context)
  match repeating? (script.scripts.execute.getD []) n with
  | none => return .complete
  | some c =>
    runCall h c
    match c.returns with
    | some r => resolveOutcome r
    | none => return .complete

def presentScripted (h : ScriptHooks) (s : StepId) (context : Value) : Scene Unit := do
  let script ← scriptOf s
  match script.scripts.present with
  | none => return
  | some calls =>
    let n := script.presented
    count s ({ · with presented := n + 1 })
    see (.presented ((← get).host.stepName s) n context)
    match calls[n]? with
    | some c => runCall h c
    | none => return

def startingScripted (h : ScriptHooks) (s : StepId) : Scene Unit := do
  let script ← scriptOf s
  match script.scripts.starting with
  | none => return
  | some calls =>
    let n := script.started
    count s ({ · with started := n + 1 })
    see (.starting ((← get).host.stepName s) n)
    match calls[n]? with
    | some c => runCall h c
    | none => return

def takeCall (l : ListenerId) (kind : String) : Scene (Option Call) := do
  let script := ((← get).host.listeners[l.index]?).getD default
  match Entries.get? kind script.on with
  | some (c :: rest) =>
    updateHost fun st =>
      { st with listeners := st.listeners.modify l.index fun s =>
          { s with on := Entries.put kind rest s.on } }
    return some c
  | _ => return none

def observeScripted (h : ScriptHooks) (l : ListenerId) (event : Event) : Scene Unit := do
  let script := ((← get).host.listeners[l.index]?).getD default
  see (.told script.name event)
  match ← takeCall l event.kind.name with
  | some c => runCall h c
  | none => return

/-- How many steps scripts may add to a traversal. -/
def room : Nat := 1000000

/-- The hooks of a level. At level zero all of them fail. -/
def hooks : Nat → ScriptHooks
  | 0 => {
      starting := fun _ => throw .exhausted
      execute := fun _ _ => throw .exhausted
      present := fun _ _ => throw .exhausted
      observe := fun _ _ => throw .exhausted
      room }
  | n + 1 => {
      starting := fun s => startingScripted (hooks n) s
      execute := fun s context => executeScripted (hooks n) s context
      present := fun s context => presentScripted (hooks n) s context
      observe := fun l event => observeScripted (hooks n) l event
      room }

end ApprovalFlow.Scenario
