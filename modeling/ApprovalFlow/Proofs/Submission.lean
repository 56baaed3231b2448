import ApprovalFlow.PageChange
import ApprovalFlow.Proofs.ApprovalGraph
import ApprovalFlow.Proofs.Turns

/-!
# The submission of a page change

The program's engine holds one workflow of three steps, and one queue, manager and context, so that what
there is to it fits into a `Scene`. A change goes through a few scenes, which are written out here, and each
operation of the engine takes one to the next, whatever the settings, the approver, the page, the text and
the clock are. `Reaches` puts the operations together, along the lines of the engine's own definitions, up
to what the whole program does (`submission_run`, `submit_run`).
-/

namespace ApprovalFlow

def Clock.after (c : Clock) (n : Nat) : Clock := { c with taken := c.taken + n }

namespace PageChange

open Engine Act Logging

/-- The engine of the program, apart from its journal: the steps that prepare and save the page, the
decision about it, and one each of the other things. -/
structure Scene where
  prepare : Step
  save : Step
  decision : Step
  workflow : Workflow
  queue : List StepId := []
  manager : Manager
  context : Context
  pages : Entries String Value := []
  clock : Clock

namespace Scene

def engine (sc : Scene) (journal : Array Note) : Engine Host where
  steps := #[sc.prepare, sc.save, sc.decision]
  workflows := #[sc.workflow]
  queues := #[{ decisions := sc.queue }]
  managers := #[sc.manager]
  contexts := #[sc.context]
  decisions := 1
  clock := sc.clock
  journal
  host := { pages := sc.pages, prepare := some ⟨0⟩, save := some ⟨1⟩ }

def step (sc : Scene) (s : StepId) : Step := (sc.engine #[]).step s

def closed (sc : Scene) (s : StepId) (state : WorkflowState) : Scene :=
  { sc with
    workflow := { sc.workflow with state, history := sc.workflow.history ++ [s], endTime := sc.clock.now }
    manager := { sc.manager with running := [], finished := [⟨0⟩] }
    clock := sc.clock.tick }

end Scene

/-! ## From scene to scene -/

/-- From one scene the action comes to another, with a result. Only the journal goes its own way. -/
def Reaches {α : Type} (m : Act Host α) (sc : Scene) (a : α) (sc' : Scene) : Prop :=
  ∀ j, ∃ j', m.run (sc.engine j) = (.ok a, sc'.engine j')

def work (s : StepId) : Act Host Outcome :=
  if some ⟨0⟩ = some s then prepareChange s
  else if some ⟨1⟩ = some s then saveChange s
  else return .complete

namespace Reaches

variable {α β : Type} {sc sc₁ sc₂ sc₃ : Scene} {s : StepId}

theorem bind {m : Act Host α} {f : α → Act Host β} {a : α} {b : β} (h : Reaches m sc a sc₁)
    (hf : Reaches (f a) sc₁ b sc₂) : Reaches (m >>= f) sc b sc₂ := by
  intro j
  obtain ⟨j₁, hm⟩ := h j
  obtain ⟨j₂, hr⟩ := hf j₁
  exact ⟨j₂, (run_bind_of_ok hm f).trans hr⟩

/-- What is read of the engine has to be enough to go on with, whatever the journal is. -/
theorem get_bind {f : Engine Host → Act Host β} {b : β}
    (hf : ∀ j, ∃ j', (f (sc.engine j)).run (sc.engine j) = (.ok b, sc₁.engine j')) :
    Reaches (get >>= f) sc b sc₁ := hf

/-- An action that leaves the engine as it is. -/
theorem stay {m : Act Host α} {a : α} (h : ∀ j, m.run (sc.engine j) = (.ok a, sc.engine j)) :
    Reaches m sc a sc := fun j => ⟨j, h j⟩

theorem guarding {m : Act Host α} {a : α} (h : Reaches m sc a sc₁) (w : WorkflowId) (s : StepId) :
    Reaches (guarding w s m) sc a sc₁ := by
  intro j
  obtain ⟨j₁, hm⟩ := h j
  refine ⟨j₁, ?_⟩
  unfold Engine.guarding
  rw [run_tryCatch, hm]

/-- A step is run for the first time: it starts, is executed, and gets the outcome that results. -/
theorem runStep {o : Outcome} (hs : (sc.step s).isStarted = false) (hstart : Reaches (start hooks s) sc () sc₁)
    (hexec : Reaches (execute hooks s ()) sc₁ o sc₂)
    (hgive : Reaches (onlyIf (!(sc₂.step s).isCompleted && !o.same .proceed) (setOutcome s o)) sc₂ () sc₃) :
    Reaches (runStep hooks ⟨0⟩ s ()) sc () sc₃ := by
  refine get_bind fun j => ?_
  have hs' : ((sc.engine j).step s).isStarted = false := hs
  simp only [hs', Bool.not_false, Bool.false_and]
  exact (bind (hstart.guarding ⟨0⟩ s) (bind (hexec.guarding ⟨0⟩ s) hgive)) j

/-- A task does its work when it is executed. -/
theorem execute_task {o : Outcome} (hd : (sc.step s).isDecision = false) (h : Reaches (work s) sc o sc₁) :
    Reaches (execute hooks s ()) sc o sc₁ := by
  refine get_bind fun j => ?_
  have hd' : ((sc.engine j).step s).isDecision = false := hd
  rw [hd', if_neg Bool.false_ne_true]
  exact h j

/-- A turn runs the current step if it is not completed, and then leaves it or pauses. -/
theorem turn {p : Progress} (hs : sc.workflow.current = s)
    (hrun : Reaches (onlyIf (!(sc.step s).isCompleted) (Engine.runStep hooks ⟨0⟩ s ())) sc () sc₁)
    (hgo : Reaches (if (sc₁.step s).isCompleted then leave hooks ⟨0⟩ s else pause hooks ⟨0⟩ s) sc₁ p sc₂) :
    Reaches (turn hooks ⟨0⟩ ()) sc p sc₂ := by
  subst hs
  exact get_bind fun j => bind hrun (get_bind fun j => hgo j) j

theorem traverse_stop {state : WorkflowState} (h : Reaches (Engine.turn hooks ⟨0⟩ ()) sc (.stop state) sc₁)
    (n : Nat) : Reaches (traverse hooks ⟨0⟩ () (n + 1)) sc state sc₁ :=
  bind h (stay fun _ => rfl)

theorem traverse_goOn {state : WorkflowState} {n : Nat} (h : Reaches (Engine.turn hooks ⟨0⟩ ()) sc .goOn sc₁)
    (hn : Reaches (traverse hooks ⟨0⟩ () n) sc₁ state sc₂) :
    Reaches (traverse hooks ⟨0⟩ () (n + 1)) sc state sc₂ :=
  bind h hn

/-- There are turns enough for each of the three steps and one more. -/
theorem advance {state : WorkflowState} (he : Reaches (enter hooks ⟨0⟩) sc true sc₁)
    (ht : Reaches (traverse hooks ⟨0⟩ () 4) sc₁ state sc₂) :
    Reaches (advance hooks ⟨0⟩ ()) sc state sc₂ := by
  rw [advance_eq_enter]
  exact bind he ht

end Reaches

/-! ## The scenes of a change -/

structure Change where
  settings : Settings
  approver : Actor
  page : Given
  text : String
  clock : Clock

def plan (page : Given) : ApprovalPlan where
  submitter := some ⟨"janne"⟩
  key := workflowKey
  preparation := some ⟨0⟩
  decisionKey := "decision.saveWikiPage"
  facts := [⟨"fact.page", page.value⟩]
  completion := some ⟨1⟩

/-- The pages once a text has been saved. Only a text names a page. -/
def Given.pages (page : Given) (text : String) : Entries String Value :=
  match page with
  | .text name => [(name, .text text)]
  | .nothing => []

/-- The program up to where the approver may have to be asked. -/
def submission (settings : Settings) (options : Options) :
    Act Host (ManagerId × WorkflowId × WorkflowState) := do
  let (m, w) ← setUp settings options
  let state ← startManaged hooks m w ()
  return (m, w, state)

theorem submit_eq (settings : Settings) (options : Options) :
    submit settings options = do
      let (m, w, state) ← submission settings options
      if state = .waiting then return (w, ← decideAsApprover m options) else return (w, state) := by
  unfold submit submission
  simp only [bind_assoc, pure_bind]

namespace Change

variable (x : Change)

/-- The workflow has been made. -/
def submitted : Scene where
  prepare := { Step.task "PrepareChange" "task.preSaveWikiPage" none with
    successors := [⟨.complete, some ⟨2⟩⟩], workflowId := some 0, context := some ⟨0⟩ }
  save := .task "SaveChange" "task.saveWikiPage" none
  decision := (plan x.page).question x.approver 1 none
  workflow := {
    key := workflowKey, owner := some ⟨"janne"⟩, id := 0, first := ⟨0⟩, current := ⟨0⟩, context := ⟨0⟩ }
  manager := { settings := x.settings, queue := ⟨0⟩ }
  context := [("page", x.page.value), ("text", .text x.text)]
  clock := x.clock

def registered : Scene :=
  { x.submitted with
    prepare := { x.submitted.prepare with workflowId := some 1 }
    workflow := { x.submitted.workflow with id := 1, listeners := [.manager ⟨0⟩] }
    manager := { x.submitted.manager with nextId := 2, running := [(1, ⟨0⟩)] } }

def begun : Scene :=
  { x.registered with
    workflow := { x.registered.workflow with state := .running, startTime := x.clock.now }
    clock := x.clock.after 1 }

def preparing : Scene :=
  { x.begun with
    prepare := { x.begun.prepare with state := .started, startTime := (x.clock.after 1).now }
    clock := x.clock.after 2 }

/-- There is nothing to save. -/
def rejected : Scene :=
  { x.preparing with
    prepare := { x.preparing.prepare with
      state := .completed, outcome := .abort, endTime := (x.clock.after 2).now }
    clock := x.clock.after 3 }

def noted : Scene :=
  { x.preparing with
    context := [("page", x.page.value), ("text", .text x.text), ("prepared", .bool true)] }

def prepared : Scene :=
  { x.noted with
    prepare := { x.noted.prepare with
      state := .completed, outcome := .complete, endTime := (x.clock.after 2).now }
    clock := x.clock.after 3 }

/-- The decision comes next. -/
def proposed : Scene :=
  { x.prepared with
    decision := { x.prepared.decision with workflowId := some 1, context := some ⟨0⟩ }
    workflow := { x.prepared.workflow with history := [⟨0⟩], previous := some ⟨0⟩, current := ⟨2⟩ } }

/-- The decision has started. -/
def asking : Scene :=
  { x.proposed with
    decision := { x.proposed.decision with state := .started, startTime := (x.clock.after 3).now }
    clock := x.clock.after 4 }

def asked : Scene :=
  { x.asking with
    decision := { x.asking.decision with
      decision := x.asking.decision.decision.map ({ · with begun := true }) } }

def waiting : Scene :=
  { x.asked with workflow := { x.asked.workflow with state := .waiting }, queue := [⟨2⟩] }

def decided (o : Outcome) : Scene :=
  { x.waiting with
    decision := { x.waiting.decision with state := .completed, outcome := o, endTime := (x.clock.after 4).now }
    queue := []
    clock := x.clock.after 5 }

def resumed (o : Outcome) : Scene :=
  { x.decided o with workflow := { (x.decided o).workflow with state := .running } }

/-- The page is to be saved next. -/
def released : Scene :=
  { x.resumed .approve with
    save := { (x.resumed .approve).save with workflowId := some 1, context := some ⟨0⟩ }
    workflow := { (x.resumed .approve).workflow with
      history := [⟨0⟩, ⟨2⟩], previous := some ⟨2⟩, current := ⟨1⟩ } }

def saving : Scene :=
  { x.released with
    save := { x.released.save with state := .started, startTime := (x.clock.after 5).now }
    clock := x.clock.after 6 }

def stored : Scene := { x.saving with pages := x.page.pages x.text }

def saved : Scene :=
  { x.stored with
    save := { x.stored.save with state := .completed, outcome := .complete, endTime := (x.clock.after 6).now }
    clock := x.clock.after 7 }

/-! ## What takes a change from scene to scene

Each operation is computed. Only the scenes at its two ends are opened for that: what they share stays as it
is and has not to be compared. -/

theorem accepted : Reaches (accept ⟨0⟩ ⟨0⟩ >>= fun _ => register ⟨0⟩ ⟨0⟩) x.submitted () x.registered := by
  intro j
  dsimp only [submitted, registered]
  exact ⟨_, rfl⟩

theorem entered : Reaches (enter hooks ⟨0⟩) x.registered true x.begun := by
  intro j
  dsimp only [registered, begun]
  exact ⟨_, rfl⟩

theorem starts_preparing : Reaches (start hooks ⟨0⟩) x.begun () x.preparing := by
  intro j
  dsimp only [begun, preparing]
  exact ⟨_, rfl⟩

theorem contextOf_preparing : Reaches (contextOf ⟨0⟩) x.preparing ⟨0⟩ x.preparing := .stay fun _ => rfl

/-- What the preparation does depends on the text in the context. -/
theorem executes_preparing {o : Outcome} {sc : Scene}
    (h : Reaches (if (Text.strip x.text).isEmpty then return .abort
      else do
        setShared ⟨0⟩ "prepared" (.bool true)
        return .complete) x.preparing o sc) :
    Reaches (execute hooks ⟨0⟩ ()) x.preparing o sc := by
  refine Reaches.execute_task rfl (.bind x.contextOf_preparing (.get_bind fun j => ?_))
  -- The text is not known, so whether it is blank cannot be computed.
  have ht : Entries.get? "text" ((x.preparing.engine j).context ⟨0⟩) = some (.text x.text) := rfl
  rw [ht]
  exact h j

theorem executes_blank (hb : (Text.strip x.text).isEmpty = true) :
    Reaches (execute hooks ⟨0⟩ ()) x.preparing .abort x.preparing := by
  refine x.executes_preparing fun j => ⟨j, ?_⟩
  rw [if_pos hb]
  rfl

theorem executes_text (hb : (Text.strip x.text).isEmpty = false) :
    Reaches (execute hooks ⟨0⟩ ()) x.preparing .complete x.noted := by
  refine x.executes_preparing fun j => ⟨j, ?_⟩
  rw [if_neg (by rw [hb]; exact Bool.false_ne_true)]
  dsimp only [preparing, noted]
  rfl

theorem gives_abort : Reaches (setOutcome ⟨0⟩ .abort) x.preparing () x.rejected := by
  intro j
  dsimp only [preparing, rejected]
  exact ⟨_, rfl⟩

theorem gives_complete : Reaches (setOutcome ⟨0⟩ .complete) x.noted () x.prepared := by
  intro j
  dsimp only [noted, prepared]
  exact ⟨_, rfl⟩

theorem leaves_rejected :
    Reaches (leave hooks ⟨0⟩ ⟨0⟩) x.rejected (.stop .aborted) (x.rejected.closed ⟨0⟩ .aborted) := by
  intro j
  dsimp only [rejected, Scene.closed]
  exact ⟨_, rfl⟩

theorem leaves_prepared : Reaches (leave hooks ⟨0⟩ ⟨0⟩) x.prepared .goOn x.proposed := by
  intro j
  dsimp only [prepared, proposed]
  exact ⟨_, rfl⟩

theorem starts_asking : Reaches (start hooks ⟨2⟩) x.proposed () x.asking := by
  intro j
  dsimp only [proposed, asking]
  exact ⟨_, rfl⟩

theorem executes_asking : Reaches (execute hooks ⟨2⟩ ()) x.asking .proceed x.asked := by
  intro j
  dsimp only [asking, asked]
  exact ⟨_, rfl⟩

theorem pauses : Reaches (pause hooks ⟨0⟩ ⟨2⟩) x.asked (.stop .waiting) x.waiting := by
  intro j
  dsimp only [asked, waiting]
  exact ⟨_, rfl⟩

/-- The one decision that waits for the approver is the one about the page. -/
theorem decisionsOf_waiting (j : Array Note) :
    decisionsOf (x.waiting.engine j) ⟨0⟩ (some x.approver) = [⟨2⟩] := by
  have ha : ((x.waiting.engine j).step ⟨2⟩).actor = some x.approver := rfl
  show [(⟨2⟩ : StepId)].filter _ = _
  rw [List.filter_cons_of_pos (by rw [ha]; exact decide_eq_true rfl)]
  rfl

def answer (deny : Bool) : Outcome := if deny then .deny else .approve

theorem resolves (deny : Bool) :
    Reaches (resolve ⟨2⟩ (answer deny)) x.waiting () { x.decided (answer deny) with queue := [⟨2⟩] } := by
  intro j
  dsimp only [waiting, decided]
  cases deny <;> exact ⟨_, rfl⟩

theorem dequeues (o : Outcome) :
    Reaches (dequeue hooks ⟨0⟩ ⟨2⟩) { x.decided o with queue := [⟨2⟩] } () (x.decided o) := by
  intro j
  dsimp only [decided]
  exact ⟨_, rfl⟩

theorem resumes (o : Outcome) : Reaches (enter hooks ⟨0⟩) (x.decided o) true (x.resumed o) := by
  intro j
  dsimp only [decided, resumed]
  exact ⟨_, rfl⟩

theorem leaves_denied :
    Reaches (leave hooks ⟨0⟩ ⟨2⟩) (x.resumed .deny) (.stop .completed)
      ((x.resumed .deny).closed ⟨2⟩ .completed) := by
  intro j
  dsimp only [resumed, Scene.closed]
  exact ⟨_, rfl⟩

theorem leaves_approved : Reaches (leave hooks ⟨0⟩ ⟨2⟩) (x.resumed .approve) .goOn x.released := by
  intro j
  dsimp only [resumed, released]
  exact ⟨_, rfl⟩

theorem starts_saving : Reaches (start hooks ⟨1⟩) x.released () x.saving := by
  intro j
  dsimp only [released, saving]
  exact ⟨_, rfl⟩

theorem executes_saving (hp : x.page ≠ .nothing) :
    Reaches (execute hooks ⟨1⟩ ()) x.saving .complete x.stored := by
  refine Reaches.execute_task rfl ?_
  obtain ⟨settings, approver, page, text, clock⟩ := x
  cases page with
  | nothing => exact absurd rfl hp
  | text name =>
    intro j
    dsimp only [saving, stored]
    exact ⟨_, rfl⟩

theorem gives_saved : Reaches (setOutcome ⟨1⟩ .complete) x.stored () x.saved := by
  intro j
  dsimp only [stored, saved]
  exact ⟨_, rfl⟩

theorem leaves_saved :
    Reaches (leave hooks ⟨0⟩ ⟨1⟩) x.saved (.stop .completed) (x.saved.closed ⟨1⟩ .completed) := by
  intro j
  dsimp only [saved, Scene.closed]
  exact ⟨_, rfl⟩

/-! ## The turns -/

theorem turn_rejected (hb : (Text.strip x.text).isEmpty = true) :
    Reaches (turn hooks ⟨0⟩ ()) x.begun (.stop .aborted) (x.rejected.closed ⟨0⟩ .aborted) :=
  .turn (s := ⟨0⟩) rfl
    (.runStep rfl x.starts_preparing (x.executes_blank hb) x.gives_abort) x.leaves_rejected

theorem turn_prepared (hb : (Text.strip x.text).isEmpty = false) :
    Reaches (turn hooks ⟨0⟩ ()) x.begun .goOn x.proposed :=
  .turn (s := ⟨0⟩) rfl
    (.runStep rfl x.starts_preparing (x.executes_text hb) x.gives_complete) x.leaves_prepared

theorem turn_asked : Reaches (turn hooks ⟨0⟩ ()) x.proposed (.stop .waiting) x.waiting :=
  .turn (s := ⟨2⟩) rfl (.runStep rfl x.starts_asking x.executes_asking (.stay fun _ => rfl)) x.pauses

theorem turn_denied :
    Reaches (turn hooks ⟨0⟩ ()) (x.resumed .deny) (.stop .completed)
      ((x.resumed .deny).closed ⟨2⟩ .completed) :=
  .turn (s := ⟨2⟩) rfl (.stay fun _ => rfl) x.leaves_denied

theorem turn_approved : Reaches (turn hooks ⟨0⟩ ()) (x.resumed .approve) .goOn x.released :=
  .turn (s := ⟨2⟩) rfl (.stay fun _ => rfl) x.leaves_approved

theorem turn_saved (hp : x.page ≠ .nothing) :
    Reaches (turn hooks ⟨0⟩ ()) x.released (.stop .completed) (x.saved.closed ⟨1⟩ .completed) :=
  .turn (s := ⟨1⟩) rfl (.runStep rfl x.starts_saving (x.executes_saving hp) x.gives_saved) x.leaves_saved

/-! ## The run of the program -/

def options (deny : Bool) : Options := ⟨x.page, .text x.text, deny⟩

def outset : Engine Host := { clock := x.clock, host := {} }

def fresh : Engine Host where
  steps := #[.task "PrepareChange" "task.preSaveWikiPage" none, .task "SaveChange" "task.saveWikiPage" none]
  queues := #[{}]
  managers := #[{ settings := x.settings, queue := ⟨0⟩ }]
  clock := x.clock
  host := { prepare := some ⟨0⟩, save := some ⟨1⟩ }

def Assigned : Prop := x.settings.approver? workflowKey = some x.approver

variable {x}

theorem plans (ha : x.Assigned) :
    ∃ j, (addApprovalWorkflow ⟨0⟩ (plan x.page)).run x.fresh =
      (.ok ⟨0⟩, Scene.engine { x.submitted with context := [] } j) := by
  have ha' : (x.fresh.manager ⟨0⟩).settings.approver? (plan x.page).key = some x.approver := ha
  unfold addApprovalWorkflow
  rw [run_bind, run_get]
  dsimp only
  rw [ha']
  exact ⟨_, rfl⟩

theorem sets_up (ha : x.Assigned) (deny : Bool) :
    ∃ j, (setUp x.settings (x.options deny)).run x.outset = (.ok (⟨0⟩, ⟨0⟩), x.submitted.engine j) := by
  obtain ⟨j, hp⟩ := plans ha
  refine ⟨j, ?_⟩
  -- All that comes before the workflow is the same whatever the change is.
  have hs : (setUp x.settings (x.options deny)).run x.outset =
      (addApprovalWorkflow ⟨0⟩ (plan x.page) >>= fun w => do
        setAttribute w "page" x.page.value
        setAttribute w "text" (.text x.text)
        return ((⟨0⟩ : ManagerId), w)).run x.fresh := rfl
  exact hs.trans (run_bind_of_ok hp _)

/-- A workflow is accepted and registered before it runs. -/
theorem manages {state : WorkflowState} {sc : Scene}
    (ht : Reaches (traverse hooks ⟨0⟩ () 4) x.begun state sc) :
    Reaches (startManaged hooks ⟨0⟩ ⟨0⟩ ()) x.submitted state sc := by
  have h := Reaches.bind x.accepted (.advance x.entered ht)
  rw [bind_assoc] at h
  exact Reaches.get_bind (Reaches.bind (.stay fun _ => rfl) h)

theorem submission_run (ha : x.Assigned) (deny : Bool) {state : WorkflowState} {sc : Scene}
    (ht : Reaches (traverse hooks ⟨0⟩ () 4) x.begun state sc) :
    ∃ j, (submission x.settings (x.options deny)).run x.outset = (.ok (⟨0⟩, ⟨0⟩, state), sc.engine j) := by
  obtain ⟨j, hs⟩ := sets_up ha deny
  obtain ⟨j', hm⟩ := manages ht j
  refine ⟨j', ?_⟩
  unfold submission
  rw [run_bind_of_ok hs]
  exact run_bind_of_ok hm _

/-- The approver decides what waits for a decision. -/
theorem decides (deny : Bool) :
    Reaches (decideQueued hooks ⟨0⟩ ⟨2⟩ (answer deny) (some x.approver)) x.waiting ()
      (x.decided (answer deny)) := by
  refine Reaches.bind (.stay fun _ => rfl) (.get_bind fun j => ?_)
  -- The one who decides is the one who was asked, whoever that is.
  have hactor : ((x.waiting.engine j).step ⟨2⟩).actor = some x.approver := rfl
  dsimp only
  rw [hactor, bne_self_eq_false]
  exact Reaches.bind (.stay fun _ => rfl) (.bind (x.resolves deny) (.get_bind fun j => x.dequeues _ j)) j

theorem decideAsApprover_run (ha : x.Assigned) (deny : Bool) {state : WorkflowState} {sc : Scene}
    (ht : Reaches (traverse hooks ⟨0⟩ () 4) (x.resumed (answer deny)) state sc) :
    Reaches (decideAsApprover ⟨0⟩ (x.options deny)) x.waiting state sc := by
  refine Reaches.get_bind fun j => ?_
  have ha' : ((x.waiting.engine j).manager ⟨0⟩).settings.approver? workflowKey = some x.approver := ha
  dsimp only
  rw [ha']
  have hq : ((x.waiting.engine j).manager ⟨0⟩).queue = ⟨0⟩ := rfl
  rw [hq, x.decisionsOf_waiting j]
  refine Reaches.get_bind (fun j => ?_) j
  exact Reaches.bind (x.decides deny) (.advance (x.resumes _) ht) j

/-! ## How a change ends -/

theorem begun_blank (hb : (Text.strip x.text).isEmpty = true) :
    Reaches (traverse hooks ⟨0⟩ () 4) x.begun .aborted (x.rejected.closed ⟨0⟩ .aborted) :=
  .traverse_stop (x.turn_rejected hb) 3

theorem begun_waiting (hb : (Text.strip x.text).isEmpty = false) :
    Reaches (traverse hooks ⟨0⟩ () 4) x.begun .waiting x.waiting :=
  .traverse_goOn (x.turn_prepared hb) (.traverse_stop x.turn_asked 2)

theorem resumed_denied :
    Reaches (traverse hooks ⟨0⟩ () 4) (x.resumed .deny) .completed
      ((x.resumed .deny).closed ⟨2⟩ .completed) :=
  .traverse_stop x.turn_denied 3

theorem resumed_approved (hp : x.page ≠ .nothing) :
    Reaches (traverse hooks ⟨0⟩ () 4) (x.resumed .approve) .completed (x.saved.closed ⟨1⟩ .completed) :=
  .traverse_goOn x.turn_approved (.traverse_stop (x.turn_saved hp) 2)

/-- A change whose text is blank is aborted, and nobody is asked. -/
theorem submit_blank (ha : x.Assigned) (deny : Bool) (hb : (Text.strip x.text).isEmpty = true) :
    ∃ j, (submit x.settings (x.options deny)).run x.outset =
      (.ok (⟨0⟩, .aborted), (x.rejected.closed ⟨0⟩ .aborted).engine j) := by
  obtain ⟨j, hs⟩ := submission_run ha deny (x.begun_blank hb)
  refine ⟨j, ?_⟩
  rw [submit_eq, run_bind_of_ok hs]
  rfl

/-- Any other change ends as the approver decides. -/
theorem submit_decided (ha : x.Assigned) (deny : Bool) (hb : (Text.strip x.text).isEmpty = false)
    {state : WorkflowState} {sc : Scene}
    (ht : Reaches (traverse hooks ⟨0⟩ () 4) (x.resumed (answer deny)) state sc) :
    ∃ j, (submit x.settings (x.options deny)).run x.outset = (.ok (⟨0⟩, state), sc.engine j) := by
  obtain ⟨j, hs⟩ := submission_run ha deny (x.begun_waiting hb)
  obtain ⟨j', hd⟩ := decideAsApprover_run ha deny ht j
  refine ⟨j', ?_⟩
  rw [submit_eq, run_bind_of_ok hs]
  exact run_bind_of_ok hd _

end Change

end PageChange

end ApprovalFlow
