import ApprovalFlow.Proofs.DisjointWorkflows

/-!
# Workflows are independent

Operations on two workflows of a manager may be done in either order if neither workflow has steps or a
context of the other and none of their steps is bound elsewhere: each operation gives the same result, and the
engines that they leave are the same but for times and the order of lists (`operations_commute`).
-/

namespace ApprovalFlow.Engine

open Act

variable {σ κ γ : Type}

/-- Neither of the workflows has steps or the context of the other. -/
structure Apart (mine theirs : StepId → Prop) (v w : WorkflowId) (e : Engine σ) : Prop where
  other : v ≠ w
  steps : ∀ s, mine s → ¬theirs s
  contexts : (e.workflow v).context ≠ (e.workflow w).context

/-- The engines are the same but for times and for the order in the queue and among the finished workflows. -/
structure Tantamount (m : ManagerId) (part : WorkflowId → σ → κ) (e e' : Engine σ) : Prop where
  step : ∀ s, Step.Like (.untimed σ) (e.step s) (e'.step s)
  errors : ∀ s, (e.step s).errors = (e'.step s).errors
  workflow : ∀ u, Workflow.Like (.untimed σ) (e.workflow u) (e'.workflow u)
  context : ∀ c, e.context c = e'.context c
  part : ∀ u, part u e.host = part u e'.host
  running : ∀ id, running? e m id = running? e' m id
  finished : ∀ u, u ∈ (e.desk m).finished ↔ u ∈ (e'.desk m).finished
  queue : ∀ s, s ∈ (e.desk m).queue ↔ s ∈ (e'.desk m).queue

/-- Whichever of the operations comes first, each gives the same result, and they lead to the same. -/
structure Commute (h : Hooks σ γ) (m : ManagerId) (part : WorkflowId → σ → κ) (a b : Operation σ γ)
    (e : Engine σ) : Prop where
  first : ((reply h a).run e).1 = ((reply h a).run (next h e b)).1
  second : ((reply h b).run e).1 = ((reply h b).run (next h e a)).1
  tantamount : Tantamount m part (runs h e [a, b]) (runs h e [b, a])

variable {h : Hooks σ γ} {m : ManagerId} {part : WorkflowId → σ → κ} {mine theirs : StepId → Prop}
  {v w : WorkflowId} {a b op : Operation σ γ} {e e₁ e₂ e₁₂ e₂₁ : Engine σ}

theorem Apart.symm (h : Apart mine theirs v w e) : Apart theirs mine w v e :=
  ⟨h.other.symm, fun s hs hm => h.steps s hm hs, h.contexts.symm⟩

/-! ## What happens in one precinct -/

section Within

variable (hap : Apart mine theirs v w e) (hin : Within m part mine v e e₁)
include hap hin

/-- What happens in the one precinct leaves the other one alone. -/
theorem Within.samePrecinct : SamePrecinct m part theirs w e e₁ where
  size := hin.size.symm
  extent := hin.extent.symm
  step s hs := by
    rw [hin.steps s fun hm => hap.steps s hm hs]
    exact Step.like_self (fun _ => Iff.rfl) _
  errors s hs := by rw [hin.steps s fun hm => hap.steps s hm hs]
  workflow := by
    rw [hin.others w hap.other.symm]
    exact Workflow.like_self (fun _ => Iff.rfl) _
  context := (hin.contexts _ hap.contexts.symm).symm
  part := (hin.parts w hap.other.symm).symm
  queueId := hin.queueId.symm
  queue s hs := (hin.queue s fun hm => hap.steps s hm hs).symm
  running id := (hin.running id w hap.other.symm).symm
  finished := (hin.finished w hap.other.symm).symm

omit hap in
/-- The register gains nothing. -/
theorem Within.running_of {id : Int} {u : WorkflowId} (hu : running? e₁ m id = some u) :
    running? e m id = some u := by
  by_cases huv : u = v
  · subst huv
    exact hin.gained id hu
  · exact (hin.running id u huv).mp hu

theorem Within.concerns (hop : Concerns m theirs w e op) : Concerns m theirs w e₁ op := by
  cases op with
  | advance | abort => exact hop
  | decide n s o actor context =>
    obtain ⟨hn, hs, hbound⟩ := hop
    refine ⟨hn, hs, fun u hu => hbound u ?_⟩
    unfold boundTo? at hu ⊢
    rw [hin.steps s fun hm => hap.steps s hm hs] at hu
    exact hin.running_of hu
  | decideQueued q s o actor => exact ⟨hop.1.trans hin.queueId.symm, hop.2⟩
  | reassignQueued q s actor => exact ⟨hop.1.trans hin.queueId.symm, hop.2⟩
  | _ => exact hop.elim

/-- Nothing of the other workflow is lost, and no decision is bound to both. -/
theorem Within.resides (hp : Precinct m mine v e₁) (hr : Resides m theirs w e) : Resides m theirs w e₁ := by
  have hstep : ∀ {s}, theirs s → e₁.step s = e.step s := fun hs => hin.steps _ fun hm => hap.steps _ hm hs
  have hw : e₁.workflow w = e.workflow w := hin.others w hap.other.symm
  have htargets : ∀ {s}, theirs s → e₁.targets s = e.targets s := fun hs =>
    targets_of_successors (by rw [hstep hs])
  have hbelongs : ∀ {s}, ¬mine s → e₁.belongs w s = e.belongs w s := fun hs => by
    unfold Engine.belongs
    rw [hin.steps _ hs, hw]
  have hrunning : ∀ id, running? e₁ m id = some w ↔ running? e m id = some w := fun id =>
    hin.running id w hap.other.symm
  refine
    { hasWorkflow := ?hasWorkflow
      hasStep := fun s hs => (hasStep_of_size hin.size s).mpr (hr.hasStep s hs)
      closed := fun s hs t ht => hr.closed s hs t (htargets hs ▸ ht)
      current := by rw [hw]; exact hr.current
      bound := ?bound
      hasDesk := hp.hasDesk
      timely := hp.timely
      audience := by rw [hw]; exact hr.audience
      keys := hp.keys
      registered := fun id hid => by rw [hw]; exact hr.registered id ((hrunning id).mp hid)
      lodged := fun s hs => by unfold Lodged; rw [hstep hs, hw]; exact hr.lodged s hs
      decisions := hp.decisions
      queued := fun s hq hs => ?queued
      foreign := fun hrun s hq hs => ?foreign
      live := fun hl ht => ?live }
  case hasWorkflow =>
    unfold HasWorkflow
    rw [hin.count]
    exact hr.hasWorkflow
  case bound =>
    rw [hw, hbelongs fun hm => hap.steps _ hm hr.current]
    exact hr.bound
  case queued =>
    have hm : ¬mine s := fun hm => hap.steps s hm hs
    rw [hw, hrunning, hbelongs hm]
    exact hr.queued s ((hin.queue s hm).mp hq) hs
  case foreign =>
    by_cases hm : mine s
    · -- Its id leads to the first workflow, so it is not that of the second one.
      obtain ⟨hrun', hb'⟩ := hp.queued s hq hm
      rw [← Bool.not_eq_true]
      intro hb
      have hid := Option.some.inj ((belongs_iff.mp hb').symm.trans (belongs_iff.mp hb))
      rw [hid, hrun] at hrun'
      exact hap.other (Option.some.inj hrun').symm
    · rw [hbelongs hm]
      rw [hw, hrunning] at hrun
      exact hr.foreign hrun s ((hin.queue s hm).mp hq) hs
  case live =>
    rw [hw] at hl ht ⊢
    exact (hrunning _).mpr (hr.live hl ht)

end Within

/-! ## Two operations -/

section Around

variable {P Q : Prop} (hpq : P → ¬Q)
include hpq

/-- Two ways round a square, by `x₁` to `x₁₂` and by `x₂` to `x₂₁`, lead to the same: where `P` holds only the
change from `x` to `x₁` counts, and that from `x₂` to `x₂₁`, and where `Q` holds only the others. -/
theorem rel_around {α : Type} {R : α → α → Prop} (hrefl : ∀ x, R x x) {x x₁ x₂ x₁₂ x₂₁ : α}
    (h₁ : ¬P → x₁ = x) (h₂ : ¬Q → x₂ = x) (h₁₂ : ¬Q → x₁₂ = x₁) (h₂₁ : ¬P → x₂₁ = x₂)
    (hp : P → R x₁ x₂₁) (hq : Q → R x₁₂ x₂) : R x₁₂ x₂₁ := by
  by_cases hP : P
  · rw [h₁₂ (hpq hP)]
    exact hp hP
  by_cases hQ : Q
  · rw [h₂₁ hP]
    exact hq hQ
  · rw [h₁₂ hQ, h₁ hP, h₂₁ hP, h₂ hQ]
    exact hrefl x

theorem iff_around {x x₁ x₂ x₁₂ x₂₁ : Prop} (h₁ : ¬P → (x₁ ↔ x)) (h₂ : ¬Q → (x₂ ↔ x))
    (h₁₂ : ¬Q → (x₁₂ ↔ x₁)) (h₂₁ : ¬P → (x₂₁ ↔ x₂)) (hp : P → (x₁ ↔ x₂₁)) (hq : Q → (x₁₂ ↔ x₂)) :
    x₁₂ ↔ x₂₁ :=
  rel_around hpq Iff.refl (fun hP => propext (h₁ hP)) (fun hQ => propext (h₂ hQ))
    (fun hQ => propext (h₁₂ hQ)) (fun hP => propext (h₂₁ hP)) hp hq

end Around

section Square

variable (hap : Apart mine theirs v w e) (hv : Upheld m part mine v e e₂ e₁ e₂₁)
  (hw : Upheld m part theirs w e e₁ e₂ e₁₂)
include hap hv hw

/-- From `e` the one precinct changes on the way to `e₁`, and alike from `e₂` to `e₂₁`; the other one changes
on the way to `e₂`, and alike from `e₁` to `e₁₂`. -/
theorem tantamount_of_upheld : Tantamount m part e₁₂ e₂₁ := by
  have hsame := hw.same.symm
  have hne : ∀ {u}, u = v → ¬u = w := fun h => h ▸ hap.other
  -- Each reading is changed by at most one of the two, so that it is the same round both ways.
  refine ⟨fun s => ?step, fun s => ?errors, fun u => ?workflow, fun c => ?context, fun u => ?part,
    fun id => Option.ext fun u => ?running, fun u => ?finished, fun s => ?queue⟩
  case step =>
    exact rel_around (hap.steps s) (Step.like_self fun _ => Iff.rfl) (hv.within.steps s) (hw.within.steps s)
      (hw.within'.steps s) (hv.within'.steps s) (hv.same.step s) (hsame.step s)
  case errors =>
    exact rel_around (hap.steps s) (fun _ => rfl) (fun h => congrArg Step.errors (hv.within.steps s h))
      (fun h => congrArg Step.errors (hw.within.steps s h))
      (fun h => congrArg Step.errors (hw.within'.steps s h))
      (fun h => congrArg Step.errors (hv.within'.steps s h)) (hv.same.errors s) (hsame.errors s)
  case workflow =>
    refine rel_around hne (Workflow.like_self fun _ => Iff.rfl) (hv.within.others u) (hw.within.others u)
      (hw.within'.others u) (hv.within'.others u) ?_ ?_
    all_goals rintro rfl
    · exact hv.same.workflow
    · exact hsame.workflow
  case context =>
    have hv₂ := hv.within'.contexts c
    have hw₁ := hw.within'.contexts c
    rw [hw.within.others v hap.other] at hv₂
    rw [hv.within.others w hap.other.symm] at hw₁
    refine rel_around (P := c = (e.workflow v).context) (Q := c = (e.workflow w).context)
      (fun h => h ▸ hap.contexts) (fun _ => rfl) (hv.within.contexts c) (hw.within.contexts c) hw₁ hv₂ ?_ ?_
    all_goals rintro rfl
    · rw [← hv.within.context]
      exact hv.same.context
    · rw [← hw.within.context]
      exact hw.same.context.symm
  case part =>
    refine rel_around hne (fun _ => rfl) (hv.within.parts u) (hw.within.parts u) (hw.within'.parts u)
      (hv.within'.parts u) ?_ ?_
    all_goals rintro rfl
    · exact hv.same.part
    · exact hsame.part
  case running =>
    refine iff_around hne (hv.within.running id u) (hw.within.running id u) (hw.within'.running id u)
      (hv.within'.running id u) ?_ ?_
    all_goals rintro rfl
    · exact hv.same.running id
    · exact hsame.running id
  case finished =>
    refine iff_around hne (hv.within.finished u) (hw.within.finished u) (hw.within'.finished u)
      (hv.within'.finished u) ?_ ?_
    all_goals rintro rfl
    · exact hv.same.finished
    · exact hsame.finished
  case queue =>
    exact iff_around (hap.steps s) (hv.within.queue s) (hw.within.queue s) (hw.within'.queue s)
      (hv.within'.queue s) (hv.same.queue s) (hsame.queue s)

end Square

/-- Operations on workflows that are apart and whose steps are not bound elsewhere may be done in either
order. -/
theorem operations_commute (hq : h.Quiet) (hdis : h.Unobtrusive part) (hkv : h.KeepTo m part mine v)
    (hkw : h.KeepTo m part theirs w) (hap : Apart mine theirs v w e) (hv : Resides m mine v e)
    (hw : Resides m theirs w e) (ha : Concerns m mine v e a) (hb : Concerns m theirs w e b) :
    Commute h m part a b e := by
  -- Each operation by itself keeps to its precinct, and so leaves that of the other as it is.
  have hselfv : SamePrecinct m part mine v e e := (within_refl e).samePrecinct hap.symm
  have hselfw : SamePrecinct m part theirs w e e := (within_refl e).samePrecinct hap
  have hv₁ := (reply_upheld hq hdis hkv hselfv hv hv ha ha).state
  have hw₂ := (reply_upheld hq hdis hkw hselfw hw hw hb hb).state
  rw [run_reply] at hv₁ hw₂
  -- After the other one it finds its precinct the same.
  have hav := reply_upheld hq hdis hkv (hw₂.within.samePrecinct hap.symm) hv
    (hw₂.within.resides hap.symm hw₂.left hv) ha (hw₂.within.concerns hap.symm ha)
  have hbw := reply_upheld hq hdis hkw (hv₁.within.samePrecinct hap) hw
    (hv₁.within.resides hap hv₁.left hw) hb (hv₁.within.concerns hap hb)
  have hv₂ := hav.state
  have hw₁ := hbw.state
  simp only [run_reply] at hv₂ hw₁
  exact ⟨hav.result, hbw.result, tantamount_of_upheld hap hv₂ hw₁⟩

/-! ## Hooks that mark the context of a step -/

def marked (e : Engine σ) (s : StepId) : Engine σ :=
  match (e.step s).context with
  | some c => e.mapContext c (Entries.put "mark" (.int s.index))
  | none => e

def markingHooks : Hooks σ Unit where
  starting s := modify (marked · s)
  execute s _ := do
    modify (marked · s)
    return .complete
  present s _ := modify (marked · s)
  observe _ _ := pure ()
  room := 0

section Marking

variable {s : StepId}

theorem marked_cases (e : Engine σ) (s : StepId) : (e.step s).context = none ∧ e.marked s = e ∨
    ∃ c, (e.step s).context = some c ∧
      e.marked s = e.mapContext c (Entries.put "mark" (.int s.index)) := by
  unfold marked
  cases (e.step s).context with
  | none => exact .inl ⟨rfl, rfl⟩
  | some c => exact .inr ⟨c, rfl, rfl⟩

theorem core_marked (e : Engine σ) (s : StepId) : (e.marked s).core = e.core := by
  rcases marked_cases e s with ⟨-, h⟩ | ⟨c, -, h⟩
  · rw [h]
  · rw [h]
    rfl

theorem ticks_marked (e : Engine σ) (s : StepId) : Ticks e (e.marked s) := by
  rcases marked_cases e s with ⟨-, h⟩ | ⟨c, -, h⟩
  · rw [h]
    rfl
  · rw [h]
    rfl

/-- A mark is left in the precinct of the workflow if the step is not bound elsewhere. -/
theorem samePrecinct_marked (hs : mine s) (hsame : SamePrecinct m part mine w e e₁) (hl : Lodged w e s) :
    SamePrecinct m part mine w (e.marked s) (e₁.marked s) := by
  have hctx := (hsame.step s hs).context
  rcases marked_cases e s with ⟨hn, h⟩ | ⟨c, hc, h⟩ <;>
    rcases marked_cases e₁ s with ⟨hn₁, h₁⟩ | ⟨c₁, hc₁, h₁⟩
  · rw [h, h₁]
    exact hsame
  · rw [hn, hc₁] at hctx
    contradiction
  · rw [hc, hn₁] at hctx
    contradiction
  rw [hc, hc₁] at hctx
  obtain rfl := Option.some.inj hctx
  obtain rfl := hl c hc
  rw [h, h₁]
  refine { hsame with extent := ?_, context := ?_ }
  · unfold mapContext
    rw [Array.size_modify, Array.size_modify]
    exact hsame.extent
  · show Engine.context _ (e.workflow w).context = Engine.context _ (e.workflow w).context
    rw [context_mapContext, context_mapContext, hsame.extent, hsame.context]

theorem contained_marked (hl : Lodged w e s) : Contained part w e (e.marked s) := by
  rcases marked_cases e s with ⟨-, h⟩ | ⟨c, hc, h⟩
  · rw [h]
    exact contained_refl e
  obtain rfl := hl c hc
  rw [h]
  refine ⟨Array.size_modify .., fun d hd => ?_, fun _ _ => rfl, rfl⟩
  rw [context_mapContext, if_neg fun hdc => hd hdc.1]

theorem minds_marked (hs : mine s) :
    Minds m part mine w s Quietly (modify (marked · s) : Act σ Unit) :=
  ⟨fun _ _ hsame hl _ => agree_modify (samePrecinct_marked hs hsame hl), fun _ hl => contained_marked hl⟩

theorem quiet_markingHooks : (markingHooks : Hooks σ Unit).Quiet where
  starting s e := core_marked e s
  execute s _ e := core_marked e s
  present s _ e := core_marked e s
  observe _ _ _ := rfl

theorem timeless_markingHooks : (markingHooks : Hooks σ Unit).Timeless where
  starting s e := ticks_marked e s
  execute s _ e := ticks_marked e s
  present s _ e := ticks_marked e s
  observe _ _ _ := rfl

theorem unobtrusive_markingHooks : (markingHooks : Hooks σ Unit).Unobtrusive part where
  silent _ _ _ := rfl
  unstirred _ _ e := refl e

/-- The marks are left in the context of the workflow whose step it is. -/
theorem keepTo_markingHooks : (markingHooks : Hooks σ Unit).KeepTo m part mine w where
  starting _ hs := minds_marked hs
  execute s _ hs := by
    refine ⟨fun e e' hsame hl hl' => ?_, fun e hl => contained_marked hl⟩
    exact ((minds_marked hs).sees e e' hsame hl hl').bind fun _ _ _ _ _ h => agree_pure rfl h
  present _ _ hs := minds_marked hs

end Marking

/-! ## Two decisions -/

def openOffice : Engine (List StepId) := runs markingHooks (office 0) (officeDay.take 2)

theorem residing_openOffice : Residing ⟨0⟩ OfficeWork (office 0).graph openOffice := by
  have hfree : running? (office 0) ⟨0⟩ ((office 0).desk ⟨0⟩).nextId = none ∧
      running? (runs markingHooks (office 0) (officeDay.take 1)) ⟨0⟩
        ((runs markingHooks (office 0) (officeDay.take 1)).desk ⟨0⟩).nextId = none := by decide +kernel
  have hops : Along markingHooks (fun e op => Attends ⟨0⟩ OfficeWork e op ∧ FreeId ⟨0⟩ e op) (office 0)
      (officeDay.take 2) := by
    refine ⟨⟨.inl ⟨rfl, List.mem_cons_self⟩, fun _ _ => hfree.1⟩,
      ⟨.inl ⟨rfl, List.mem_cons_of_mem _ List.mem_cons_self⟩, fun _ _ => hfree.2⟩, trivial⟩
  have hopen : Opening ⟨0⟩ OfficeWork (office 0) := opening_office (by decide)
  refine residing_along quiet_markingHooks timeless_markingHooks (hopen.residing (fun n => ?_) ?_) hops
  · show (1 : Int) + n * 1 ≠ 0
    omega
  · intro w hw s hs c hc
    have hall : ∀ w ∈ [(⟨0⟩ : WorkflowId), ⟨1⟩], (office 0).targets ((office 0).workflow w).first = [] ∧
        ((office 0).step ((office 0).workflow w).first).context = some ((office 0).workflow w).context := by
      decide +kernel
    obtain ⟨hlast, hctx⟩ := hall w hw
    rw [eq_of_graph hlast hs, hctx] at hc
    exact (Option.some.inj hc).symm

/-- Granting and aborting the permit may be done in either order. -/
theorem office_commutes :
    Apart ((office 0).graph ⟨0⟩) ((office 0).graph ⟨1⟩) ⟨0⟩ ⟨1⟩ openOffice ∧
    Resides ⟨0⟩ ((office 0).graph ⟨0⟩) ⟨0⟩ openOffice ∧ Resides ⟨0⟩ ((office 0).graph ⟨1⟩) ⟨1⟩ openOffice ∧
    ((reply markingHooks (.decide ⟨0⟩ ⟨0⟩ .approve (some ⟨"anna"⟩) ())).run openOffice).1.toOption =
      some (some .completed) ∧
    Commute markingHooks ⟨0⟩ (fun _ _ => ()) (.decide ⟨0⟩ ⟨0⟩ .approve (some ⟨"anna"⟩) ()) (.abort ⟨1⟩)
      openOffice := by
  have hfirst : ((office 0).workflow ⟨0⟩).first = ⟨0⟩ ∧ ((office 0).workflow ⟨1⟩).first = ⟨1⟩ ∧
      boundTo? openOffice ⟨0⟩ ⟨0⟩ = some ⟨0⟩ ∧
      (openOffice.workflow ⟨0⟩).context ≠ (openOffice.workflow ⟨1⟩).context := by decide +kernel
  obtain ⟨h₀, h₁, hbound, hctx⟩ := hfirst
  have hv : OfficeWork ⟨0⟩ := List.mem_cons_self
  have hw : OfficeWork ⟨1⟩ := List.mem_cons_of_mem _ List.mem_cons_self
  have hap : Apart ((office 0).graph ⟨0⟩) ((office 0).graph ⟨1⟩) ⟨0⟩ ⟨1⟩ openOffice :=
    ⟨by decide, residing_openOffice.disjoint _ _ hv hw (by decide), hctx⟩
  have hresides := residing_openOffice.resides hv
  have hresides' := residing_openOffice.resides hw
  have hown : (office 0).graph ⟨0⟩ ⟨0⟩ := by
    unfold graph
    rw [h₀]
    exact .refl
  refine ⟨hap, hresides, hresides', by decide +kernel, ?_⟩
  refine operations_commute quiet_markingHooks unobtrusive_markingHooks keepTo_markingHooks
    keepTo_markingHooks hap hresides hresides' ⟨rfl, hown, fun u hu => ?_⟩ rfl
  rw [hbound] at hu
  exact (Option.some.inj hu).symm

/-- The office with a third workflow, which is made last: it begins with the second decision and brings the id
of the first workflow. Then the first two are started. -/
def crowdedOffice : Engine (List StepId) :=
  runs markingHooks ((do
    let _ ← addManager default
    let _ ← addWorkflow "grant" ⟨0⟩ none 5 []
    let _ ← addWorkflow "permit" ⟨1⟩ none 3 []
    addWorkflow "amend" ⟨1⟩ none 5 []).run officeSteps).2 (officeDay.take 2)

/-- The workflows share neither steps nor a context, but the second decision is bound to the id of the first
workflow: aborting that takes it out of the queue, and it cannot be given to another actor anymore. -/
theorem crowdedOffice_interferes :
    running? crowdedOffice ⟨0⟩ 5 = some ⟨0⟩ ∧ running? crowdedOffice ⟨0⟩ 3 = some ⟨1⟩ ∧
    Apart (crowdedOffice.graph ⟨0⟩) (crowdedOffice.graph ⟨1⟩) ⟨0⟩ ⟨1⟩ crowdedOffice ∧
    ¬∀ a b, Concerns ⟨0⟩ (crowdedOffice.graph ⟨0⟩) ⟨0⟩ crowdedOffice a →
      Concerns ⟨0⟩ (crowdedOffice.graph ⟨1⟩) ⟨1⟩ crowdedOffice b →
      Commute markingHooks ⟨0⟩ (fun _ _ => ()) a b crowdedOffice := by
  have hfacts : (crowdedOffice.workflow ⟨0⟩).first = ⟨0⟩ ∧ (crowdedOffice.workflow ⟨1⟩).first = ⟨1⟩ ∧
      crowdedOffice.targets ⟨0⟩ = [] ∧ crowdedOffice.targets ⟨1⟩ = [] ∧
      (crowdedOffice.workflow ⟨0⟩).context ≠ (crowdedOffice.workflow ⟨1⟩).context ∧
      (crowdedOffice.manager ⟨0⟩).queue = ⟨0⟩ := by decide +kernel
  obtain ⟨h₀, h₁, hlast₀, hlast₁, hctx, hqueue⟩ := hfacts
  refine ⟨by decide +kernel, by decide +kernel, ⟨by decide, fun s hs hs' => ?_, hctx⟩, fun hall => ?_⟩
  · have hfirst := eq_of_graph (by rw [h₀]; exact hlast₀) hs
    rw [eq_of_graph (by rw [h₁]; exact hlast₁) hs', h₀, h₁] at hfirst
    exact absurd hfirst (by decide)
  · have hown : crowdedOffice.graph ⟨1⟩ ⟨1⟩ := by
      unfold graph
      rw [h₁]
      exact .refl
    have hcommute := hall (.abort ⟨0⟩) (.reassignQueued ⟨0⟩ ⟨1⟩ (some ⟨"carl"⟩)) rfl ⟨hqueue.symm, hown⟩
    have halone : ((reply markingHooks (.reassignQueued ⟨0⟩ ⟨1⟩ (some ⟨"carl"⟩))).run
        crowdedOffice).1.toOption = some none := by decide +kernel
    have hafter : ((reply markingHooks (.reassignQueued ⟨0⟩ ⟨1⟩ (some ⟨"carl"⟩))).run
        (next markingHooks crowdedOffice (.abort ⟨0⟩))).1.toOption = none := by decide +kernel
    exact absurd ((halone.symm.trans (congrArg Except.toOption hcommute.second)).trans hafter) nofun

end ApprovalFlow.Engine
