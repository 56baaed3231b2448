import ApprovalFlow.Proofs.CommandLine
import ApprovalFlow.Proofs.Precedence
import ApprovalFlow.Proofs.Submission

/-!
# What the page-change program comes to

For every page and text, denied or not, and under all settings that load, the program ends as its purpose
has it (`fate`): it asks the approver once, if at all, saves the page that it is to save, and prints the
record of the finished workflow. The one exception is two dashes, which the options do not take for a page
or a text: the program then fails where it needs one.
-/

namespace ApprovalFlow.PageChange

open Engine

/-! ## The approver -/

def approverOf (settings : Settings) : Actor := (settings.approver? workflowKey).getD ⟨"Admin"⟩

theorem approver?_withApprover (settings : Settings) :
    (withApprover settings).approver? workflowKey = some (approverOf settings) := by
  unfold withApprover approverOf Settings.approver? Entries.contains
  cases hc : Entries.get? workflowKey settings.approvers with
  | some name =>
    rw [Option.isSome_some, if_pos rfl, hc]
    rfl
  | none =>
    rw [Option.isSome_none, if_neg Bool.false_ne_true, Entries.get?_append, hc]
    rfl

theorem logLevel_withApprover (settings : Settings) :
    (withApprover settings).logLevel = settings.logLevel := by
  unfold withApprover
  split <;> rfl

/-! ## The end of a change -/

/-- How a change ends: in which state, with which pages, and after which steps, by their keys. -/
structure Fate where
  state : WorkflowState
  pages : Entries String Value
  history : List String

def fate (page : Given) (text : String) (deny : Bool) : Fate :=
  if (Text.strip text).isEmpty then ⟨.aborted, [], ["task.preSaveWikiPage"]⟩
  else if deny then ⟨.completed, [], ["task.preSaveWikiPage", "decision.saveWikiPage"]⟩
  else
    ⟨.completed, page.pages text,
      ["task.preSaveWikiPage", "decision.saveWikiPage", "task.saveWikiPage"]⟩

/-- The workflow has met its fate, and a record of it can be taken and written down. -/
structure Meets (w : WorkflowId) (e : Engine Host) (f : Fate) : Prop where
  id : (e.workflow w).id = 1
  state : (e.workflow w).state = f.state
  pages : e.host.pages = f.pages
  recorded : ∃ record document, e.recordWorkflow w = .ok record ∧
    record.history.map (fun i => record.steps[i]?.map (·.key)) = f.history.map some ∧
    record.document = .ok document

namespace Change

variable (x : Change) (j : Array Logging.Note)

theorem meets_rejected :
    Meets ⟨0⟩ ((x.rejected.closed ⟨0⟩ .aborted).engine j) ⟨.aborted, [], ["task.preSaveWikiPage"]⟩ := by
  obtain ⟨settings, approver, page, text, clock⟩ := x
  cases page <;> exact ⟨rfl, rfl, rfl, _, _, rfl, rfl, rfl⟩

theorem meets_denied :
    Meets ⟨0⟩ (((x.resumed .deny).closed ⟨2⟩ .completed).engine j)
      ⟨.completed, [], ["task.preSaveWikiPage", "decision.saveWikiPage"]⟩ := by
  obtain ⟨settings, approver, page, text, clock⟩ := x
  cases page <;> exact ⟨rfl, rfl, rfl, _, _, rfl, rfl, rfl⟩

theorem meets_saved :
    Meets ⟨0⟩ ((x.saved.closed ⟨1⟩ .completed).engine j)
      ⟨.completed, x.page.pages x.text,
        ["task.preSaveWikiPage", "decision.saveWikiPage", "task.saveWikiPage"]⟩ := by
  obtain ⟨settings, approver, page, text, clock⟩ := x
  cases page <;> exact ⟨rfl, rfl, rfl, _, _, rfl, rfl, rfl⟩

variable {x}

/-- The queue holds one decision for the approver whenever the workflow waits. -/
theorem asks_once (ha : x.Assigned) (deny : Bool) :
    ∃ state e, (submission x.settings (x.options deny)).run x.outset = (.ok (⟨0⟩, ⟨0⟩, state), e) ∧
      (state = .waiting → decisionsOf e (e.manager ⟨0⟩).queue (some x.approver) = [⟨2⟩]) := by
  cases hb : (Text.strip x.text).isEmpty with
  | true =>
    obtain ⟨j, hs⟩ := submission_run ha deny (x.begun_blank hb)
    exact ⟨_, _, hs, nofun⟩
  | false =>
    obtain ⟨j, hs⟩ := submission_run ha deny (x.begun_waiting hb)
    exact ⟨_, _, hs, fun _ => x.decisionsOf_waiting j⟩

/-- A change meets its fate, unless it is to be saved under no page. -/
theorem meets_fate (ha : x.Assigned) (deny : Bool)
    (hp : x.page = .nothing → (Text.strip x.text).isEmpty = true ∨ deny = true) :
    ∃ e, (submit x.settings (x.options deny)).run x.outset =
      (.ok (⟨0⟩, (fate x.page x.text deny).state), e) ∧ Meets ⟨0⟩ e (fate x.page x.text deny) := by
  unfold fate
  cases hb : (Text.strip x.text).isEmpty with
  | true =>
    obtain ⟨j, hs⟩ := submit_blank ha deny hb
    exact ⟨_, hs, x.meets_rejected j⟩
  | false =>
    cases deny with
    | true =>
      obtain ⟨j, hs⟩ := submit_decided ha true hb x.resumed_denied
      exact ⟨_, hs, x.meets_denied j⟩
    | false =>
      have hpage : x.page ≠ .nothing := by
        intro hn
        rcases hp hn with h | h
        · rw [hb] at h; cases h
        · cases h
      obtain ⟨j, hs⟩ := submit_decided ha false hb (x.resumed_approved hpage)
      exact ⟨_, hs, x.meets_saved j⟩

end Change

/-! ## The run of the program -/

/-- The run of the program on some words, under some settings, completes and ends as `f` says: whenever the
workflow waits, the queue holds exactly one decision for the approver, and the record that is printed is the
one of the finished workflow. -/
structure Publishes (clock : Clock) (sources : Settings.Sources) (settings : Settings) (words : List String)
    (options : Options) (f : Fate) : Prop where
  asked : ∃ m w state e,
    (submission (withApprover settings) options).run { clock, host := {} } = (.ok (m, w, state), e) ∧
    (state = .waiting → ∃ s, decisionsOf e (e.manager m).queue (some (approverOf settings)) = [s])
  ended : ∃ w e record document,
    (submit (withApprover settings) options).run { clock, host := {} } = (.ok (w, f.state), e) ∧
    (e.workflow w).state = f.state ∧ e.host.pages = f.pages ∧ e.recordWorkflow w = .ok record ∧
    record.history.map (fun i => record.steps[i]?.map (·.key)) = f.history.map some ∧
    record.document = .ok document ∧
    run clock sources words = .ok (logLines settings.logLevel e.journal ++
      ["Workflow 1 finished: " ++ f.state.name, "Pages: " ++ (Value.object f.pages).literal,
        Json.write .indented document])

/-- A change that meets its fate is reported as the program reports. -/
theorem run_of_meets {clock : Clock} {sources : Settings.Sources} {settings : Settings} {words : List String}
    {options : Options} {w : WorkflowId} {e : Engine Host} {f : Fate} {record : WorkflowRecord}
    {document : Value} (hwords : Options.ofWords words = .ok options)
    (hload : Settings.load sources = .ok settings)
    (hrun : (submit (withApprover settings) options).run { clock, host := {} } = (.ok (w, f.state), e))
    (hm : Meets w e f) (hr : e.recordWorkflow w = .ok record) (hd : record.document = .ok document) :
    run clock sources words = .ok (logLines settings.logLevel e.journal ++
      ["Workflow 1 finished: " ++ f.state.name, "Pages: " ++ (Value.object f.pages).literal,
        Json.write .indented document]) := by
  have hreport : report e w f.state = .ok ["Workflow 1 finished: " ++ f.state.name,
      "Pages: " ++ (Value.object f.pages).literal, Json.write .indented document] := by
    unfold report
    rw [hr, hm.id, hm.pages]
    show (record.document >>= _) = _
    rw [hd]
    rfl
  simp only [run, hwords, hload, hrun, hreport, Except.mapError, logLevel_withApprover, bind, Except.bind]
  rfl

/-- A change that fails makes the program fail. -/
theorem run_of_error {clock : Clock} {sources : Settings.Sources} {settings : Settings} {words : List String}
    {options : Options} {f : Failure} (hwords : Options.ofWords words = .ok options)
    (hload : Settings.load sources = .ok settings)
    (hrun : ((submit (withApprover settings) options).run { clock, host := {} }).1 = .error f) :
    run clock sources words = .error (.failed f) := by
  simp only [run, hwords, hload, hrun, Except.mapError, bind, Except.bind]

/-- Every page and text can be given on a command line, but for two dashes, which none gives. Whatever page
and text a command line gives, the program ends as it should, and it does so with no page too unless that is
to be saved. -/
theorem every_change_published :
    (∀ page text deny, text ≠ "--" →
      Options.ofWords (commandLine page text deny) = .ok ⟨.ofValue page.toList, .text text, deny⟩) ∧
    (∀ words options, Options.ofWords words = .ok options →
      options.page ≠ .text "--" ∧ options.text ≠ .text "--") ∧
    ∀ clock sources settings, Settings.load sources = .ok settings →
      ∀ words page text deny, Options.ofWords words = .ok ⟨page, .text text, deny⟩ →
        (page = .nothing → (Text.strip text).isEmpty = true ∨ deny = true) →
        Publishes clock sources settings words ⟨page, .text text, deny⟩ (fate page text deny) := by
  refine ⟨fun page text deny ht => ofWords_commandLine page ht deny, fun _ _ => ofWords_ne_dashes, ?_⟩
  intro clock sources settings hload words page text deny hwords hpage
  -- The program settles who approves before it begins.
  let x : Change := ⟨withApprover settings, approverOf settings, page, text, clock⟩
  have ha : x.Assigned := approver?_withApprover settings
  obtain ⟨state, e, hs, hasked⟩ := Change.asks_once ha deny
  obtain ⟨e', hrun, hm⟩ := Change.meets_fate ha deny hpage
  obtain ⟨record, document, hr, hhistory, hd⟩ := hm.recorded
  exact ⟨⟨_, _, state, e, hs, fun hw => ⟨_, hasked hw⟩⟩,
    ⟨_, e', record, document, hrun, hm.state, hm.pages, hr, hhistory, hd,
      run_of_meets hwords hload hrun hm hr hd⟩⟩

theorem load_nothing : Settings.load {} = .ok ⟨"INFO", []⟩ := by
  have hfile : Settings.fileVariables {} = .ok [] := by rw [Settings.fileVariables_eq rfl]
  have hgiven : Settings.givenBy {} = .ok ⟨[], [], []⟩ := by
    rw [Settings.givenBy, hfile]
    rfl
  rw [Settings.load, Settings.load_of_find (Settings.find_standard hgiven rfl)]
  rfl

/-- The main page gets a greeting. -/
theorem greeting_published :
    "Hello" ≠ "--" ∧ Settings.load {} = .ok ⟨"INFO", []⟩ ∧
      Options.ofWords (commandLine "Main" "Hello" false) = .ok ⟨.text "Main", .text "Hello", false⟩ ∧
      Given.text "Main" ≠ .text "--" ∧
      Publishes default {} ⟨"INFO", []⟩ (commandLine "Main" "Hello" false) ⟨.text "Main", .text "Hello", false⟩
        ⟨.completed, [("Main", .text "Hello")],
          ["task.preSaveWikiPage", "decision.saveWikiPage", "task.saveWikiPage"]⟩ := by
  have hne : "Hello" ≠ "--" := by decide
  have hwords := every_change_published.1 "Main" "Hello" false hne
  exact ⟨hne, load_nothing, hwords, (every_change_published.2.1 _ _ hwords).1,
    every_change_published.2.2 default {} ⟨"INFO", []⟩ load_nothing _ (.text "Main") "Hello" false hwords nofun⟩

/-- Two dashes are not taken for a text, nor for a page: the program fails where it has to strip the one or
to save under the other. -/
theorem dashes_not_published :
    run default {} (commandLine "Main" "--" false) =
      .error (.failed (.raised .missingMember "'list' object has no attribute 'strip'")) ∧
    run default {} (commandLine "--" "Hello" false) =
      .error (.failed (.raised .wrongType "unhashable type: 'list'")) ∧
    ¬ ∀ page text deny, Publishes default {} ⟨"INFO", []⟩ (commandLine page text deny)
      ⟨.text page, .text text, deny⟩ (fate (.text page) text deny) := by
  have hnoText : Options.ofWords (commandLine "Main" "--" false) = .ok ⟨.text "Main", .nothing, false⟩ := by
    cbv
  have hnoPage : Options.ofWords (commandLine "--" "Hello" false) = .ok ⟨.nothing, .text "Hello", false⟩ :=
    ofWords_commandLine "--" (by decide) false
  have htext : run default {} (commandLine "Main" "--" false) =
      .error (.failed (.raised .missingMember "'list' object has no attribute 'strip'")) :=
    run_of_error hnoText load_nothing (by decide +kernel)
  have hpage : run default {} (commandLine "--" "Hello" false) =
      .error (.failed (.raised .wrongType "unhashable type: 'list'")) :=
    run_of_error hnoPage load_nothing (by decide +kernel)
  refine ⟨htext, hpage, fun h => ?_⟩
  obtain ⟨_, _, _, _, _, _, _, _, _, _, hrun⟩ := (h "Main" "--" false).ended
  rw [htext] at hrun
  cases hrun

end ApprovalFlow.PageChange
