import ApprovalFlow.Engine.Approval
import ApprovalFlow.PageChange.Options
import ApprovalFlow.Record.Document

/-!
# Approving a page change

A program that uses the engine: someone submits a new text for a page, it is prepared, the approver
decides, and the page is saved. An empty text is not prepared but aborts the workflow. The program prints
the log, what became of the workflow and the pages, and the workflow's record.
-/

namespace ApprovalFlow.PageChange

open Engine Logging

/-- What the program keeps beside the engine: the saved pages, and which steps prepare and save. -/
structure Host where
  pages : Entries String Value := []
  prepare : Option StepId := none
  save : Option StepId := none
  deriving Repr, Inhabited

def workflowKey : String := "workflow.saveWikiPage"

/-- Prepares a change: an empty text aborts. What is no text cannot be prepared. -/
def prepareChange (s : StepId) : Act Host Outcome := do
  let c ← contextOf s
  let text ← match Entries.get? "text" ((← get).context c) with
    | some (.text t) => pure t
    | some v =>
      throw (.raised .missingMember ("'" ++ v.fullTypeName ++ "' object has no attribute 'strip'"))
    | none => pure ""
  if (Text.strip text).isEmpty then return .abort
  else
    setShared s "prepared" (.bool true)
    return .complete

/-- Saves a change. Only a text can name the page. -/
def saveChange (s : StepId) : Act Host Outcome := do
  let c ← contextOf s
  let shared := (← get).context c
  match Entries.get? "page" shared, Entries.get? "text" shared with
  | some (.text page), some text =>
    updateHost fun host => { host with pages := Entries.put page text host.pages }
    return .complete
  | some page, some _ =>
    throw (.raised .wrongType ("unhashable type: '" ++ page.fullTypeName ++ "'"))
  | _, none => throw (.raised .missingKey "text")
  | none, _ => throw (.raised .missingKey "page")

def hooks : Hooks Host Unit where
  starting _ := pure ()
  execute s _ := do
    let host := (← get).host
    if host.prepare = some s then prepareChange s
    else if host.save = some s then saveChange s
    else return .complete
  present _ _ := pure ()
  observe _ _ := pure ()
  room := 0

/-- What an option was given, as a value: nothing is a list without items. -/
def Given.value : Given → Value
  | .text s => .text s
  | .nothing => .list []

def withApprover (settings : Settings) : Settings :=
  if Entries.contains settings.approvers workflowKey then settings
  else { settings with approvers := settings.approvers ++ [(workflowKey, "Admin")] }

def setUp (settings : Settings) (options : Options) : Act Host (ManagerId × WorkflowId) := do
  let m ← addManager settings
  let prepare ← addTask "PrepareChange" "task.preSaveWikiPage" none
  let save ← addTask "SaveChange" "task.saveWikiPage" none
  updateHost fun host => { host with prepare := some prepare, save := some save }
  let w ← addApprovalWorkflow m
    { submitter := some ⟨"janne"⟩
      key := workflowKey
      preparation := some prepare
      decisionKey := "decision.saveWikiPage"
      facts := [⟨"fact.page", options.page.value⟩]
      completion := some save }
  setAttribute w "page" options.page.value
  setAttribute w "text" options.text.value
  return (m, w)

def decideAsApprover (m : ManagerId) (options : Options) : Act Host WorkflowState := do
  let e ← get
  let approver := (e.manager m).settings.approver? workflowKey
  match decisionsOf e (e.manager m).queue approver with
  | [s] => decide hooks m s (if options.deny then .deny else .approve) approver ()
  | _ => throw (.raised .badValue "expected one decision")

def submit (settings : Settings) (options : Options) : Act Host (WorkflowId × WorkflowState) := do
  let (m, w) ← setUp settings options
  let state ← startManaged hooks m w ()
  if state = .waiting then return (w, ← decideAsApprover m options)
  else return (w, state)

inductive Stop where
  | refused (r : Refusal)
  | misconfigured (p : Settings.Problem)
  | failed (f : Failure)
  deriving Repr, DecidableEq

def logLines (level : String) (journal : Array Note) : List String :=
  let silent : Routing := ⟨[], .unset, .unset⟩
  let (_, routing) := silent.configure level none "out"
  journal.toList.flatMap fun n =>
    match routing.write Instant.unset n with
    | .ok lines => lines.map (·.2)
    | .error _ => []

def report (e : Engine Host) (w : WorkflowId) (state : WorkflowState) :
    Except Failure (List String) := do
  let record ← e.recordWorkflow w
  let document ← record.document
  return ["Workflow " ++ toString (e.workflow w).id ++ " finished: " ++ state.name,
    "Pages: " ++ (Value.object e.host.pages).literal,
    Json.write .indented document]

def run (clock : Clock) (sources : Settings.Sources) (words : List String) :
    Except Stop (List String) := do
  let options ← (Options.ofWords words).mapError .refused
  let settings ← (Settings.load sources).mapError .misconfigured
  let settings := withApprover settings
  let (result, e) := (submit settings options).run { clock, host := {} }
  let (w, state) ← result.mapError .failed
  let report ← (report e w state).mapError .failed
  return logLines settings.logLevel e.journal ++ report

end ApprovalFlow.PageChange
