import ApprovalFlow.Proofs.ManagedChanges
import ApprovalFlow.Proofs.Footprint

/-!
# Operations that keep to a precinct

If the hooks of a workflow keep to its precinct and listeners only observe, an operation on the workflow
looks at nothing but the precinct and changes nothing beyond it (`reply_upheld`): it gives the same result in
engines that have the same precinct of the workflow, and leaves engines that have.
-/

namespace ApprovalFlow

open Act

variable {σ κ γ : Type}

/-- Listeners only observe: they do not raise, and stir nothing but what they keep to themselves. -/
structure Hooks.Unobtrusive (part : WorkflowId → σ → κ) (h : Hooks σ γ) : Prop where
  silent : h.Silent
  unstirred : ∀ l event, (h.observe l event).Always (Engine.Unstirred part)

namespace Engine

/-- Where the step `s` is not bound elsewhere, the action looks at nothing but the precinct of `w`, and
touches nothing else beyond the core. -/
structure Minds {α : Type} (m : ManagerId) (part : WorkflowId → σ → κ) (mine : StepId → Prop)
    (w : WorkflowId) (s : StepId) (V : α → α → Prop) (act : Act σ α) : Prop where
  sees : ∀ e e', SamePrecinct m part mine w e e' → Lodged w e s → Lodged w e' s →
    Agree (SamePrecinct m part mine w) V act act e e'
  keeps : ∀ e, Lodged w e s → Contained part w e (act.run e).2

end Engine

/-- The hooks that are called for the steps `mine` keep to the precinct of their workflow `w`. -/
structure Hooks.KeepTo (h : Hooks σ γ) (m : ManagerId) (part : WorkflowId → σ → κ) (mine : StepId → Prop)
    (w : WorkflowId) : Prop where
  starting : ∀ s, mine s → Engine.Minds m part mine w s Engine.Quietly (h.starting s)
  execute : ∀ s c, mine s → Engine.Minds m part mine w s Eq (h.execute s c)
  present : ∀ s c, mine s → Engine.Minds m part mine w s Engine.Quietly (h.present s c)

namespace Engine

variable {m : ManagerId} {part : WorkflowId → σ → κ} {mine : StepId → Prop} {w : WorkflowId} {s t : StepId}
  {b b' e e₁ e' e₁' : Engine σ} {d d' : Desk} {h : Hooks σ γ}

/-! ## Rearranging the desk -/

structure Rearranged (m : ManagerId) (mine : StepId → Prop) (w : WorkflowId) (e : Engine σ) (d : Desk) :
    Prop where
  keys : (Entries.keys d.running).Nodup
  decisions : ∀ s ∈ d.queue, (e.step s).isDecision = true
  queued : ∀ s ∈ d.queue, mine s →
    Entries.get? (e.workflow w).id d.running = some w ∧ e.belongs w s = true
  others : ∀ s, ¬mine s → (s ∈ d.queue ↔ s ∈ (e.desk m).queue)
  lost : ∀ id v, Entries.get? id d.running = some v → running? e m id = some v
  kept : ∀ id v, v ≠ w → running? e m id = some v → Entries.get? id d.running = some v
  finished : ∀ v, v ≠ w → (v ∈ d.finished ↔ v ∈ (e.desk m).finished)

structure SameEntries (mine : StepId → Prop) (w : WorkflowId) (d d' : Desk) : Prop where
  queue : ∀ s, mine s → (s ∈ d.queue ↔ s ∈ d'.queue)
  running : ∀ id, Entries.get? id d.running = some w ↔ Entries.get? id d'.running = some w
  finished : w ∈ d.finished ↔ w ∈ d'.finished

section Rearranged

variable (hp : Precinct m mine w e)
include hp

theorem rearranged_self : Rearranged m mine w e (e.desk m) where
  keys := hp.keys
  decisions := hp.decisions
  queued := hp.queued
  others _ _ := Iff.rfl
  lost _ _ := id
  kept _ _ _ := id
  finished _ _ := Iff.rfl

theorem rearranged_enlisted (hs : mine s) (hd : (e.step s).isDecision = true)
    (hrun : running? e m (e.workflow w).id = some w) (hb : e.belongs w s = true) :
    Rearranged m mine w e ((e.desk m).enlisted s) :=
  { rearranged_self hp with
    decisions := fun t ht => by
      rcases Desk.mem_enlisted.mp ht with ht | rfl
      · exact hp.decisions t ht
      · exact hd
    queued := fun t ht hm => by
      rcases Desk.mem_enlisted.mp ht with ht | rfl
      · exact hp.queued t ht hm
      · exact ⟨hrun, hb⟩
    others := fun t hm => by
      rw [Desk.mem_enlisted]
      refine or_iff_left ?_
      rintro rfl
      exact hm hs }

theorem rearranged_without (hs : mine s) : Rearranged m mine w e ((e.desk m).keeping (· != s)) :=
  { rearranged_self hp with
    decisions := fun t ht => hp.decisions t (Desk.mem_keeping.mp ht).1
    queued := fun t ht => hp.queued t (Desk.mem_keeping.mp ht).1
    others := fun t hm => by
      rw [Desk.mem_keeping]
      refine and_iff_left (bne_iff_ne.mpr ?_)
      rintro rfl
      exact hm hs }

/-- What is bound to the workflow in the queue is of its own, and its id leads to it. -/
theorem rearranged_filed (hrun : running? e m (e.workflow w).id = some w) :
    Rearranged m mine w e (((e.desk m).keeping fun t => !e.belongs w t).filed (e.workflow w).id w) where
  keys := hp.keys.sublist (Entries.keys_erase_sublist _ _)
  decisions t ht := hp.decisions t (Desk.mem_keeping.mp ht).1
  queued t ht hm := by
    obtain ⟨hq, hb⟩ := Desk.mem_keeping.mp ht
    rw [(hp.queued t hq hm).2] at hb
    contradiction
  others t hm := by
    refine Desk.mem_keeping.trans (and_iff_left_of_imp fun hq => ?_)
    rw [hp.foreign hrun t hq hm]
    rfl
  lost id v hv := by
    -- A look-up that succeeds is under another id, since the one of the workflow has been erased.
    have hne : id ≠ (e.workflow w).id := by
      rintro rfl
      exact absurd ((Entries.get?_erase_self hp.keys _).symm.trans hv) nofun
    exact (Entries.get?_erase_of_ne _ hne).symm.trans hv
  kept id v hne hv := by
    have hid : id ≠ (e.workflow w).id := by
      rintro rfl
      rw [hrun] at hv
      exact hne (Option.some.inj hv).symm
    exact (Entries.get?_erase_of_ne _ hid).trans hv
  finished v hne := by
    show v ∈ (e.desk m).finished ++ [w] ↔ _
    rw [List.mem_append, List.mem_singleton]
    exact or_iff_left hne

end Rearranged

theorem Secluded.refiled (hk : Secluded m part mine w b e) (hf : Files m d e e₁) (hu : Unstirred part e e₁)
    (hr : Rearranged m mine w e d) : Secluded m part mine w b e₁ where
  toMember := hk.toMember.same hf.steps hf.workflows
  hasDesk := hf.hasDesk
  timely n := by rw [hu.readings]; exact hk.timely n
  audience := by rw [hf.workflow]; exact hk.audience
  keys := by rw [hf.desk]; exact hr.keys
  registered id hid := by
    rw [running?_eq, hf.desk] at hid
    rw [hf.workflow]
    exact hk.registered id (hr.lost id w hid)
  lodged s hs := by
    unfold Lodged
    rw [hf.step, hf.workflow]
    exact hk.lodged s hs
  decisions s hs := by
    rw [hf.desk] at hs
    rw [hf.step]
    exact hr.decisions s hs
  queued s hs hm := by
    rw [hf.desk] at hs
    rw [running?_eq, hf.desk, hf.workflow, hf.belongs]
    exact hr.queued s hs hm
  foreign hrun s hs hm := by
    rw [running?_eq, hf.desk, hf.workflow] at hrun
    rw [hf.desk] at hs
    rw [hf.belongs]
    exact hk.foreign (hr.lost _ w hrun) s ((hr.others s hm).mp hs) hm
  home hl v hv := by
    rw [hf.workflow] at hl hv
    rw [running?_eq, hf.desk] at hv
    exact hk.home hl v (hr.lost _ v hv)
  within := hk.within.trans
    { toContained := hu.contained
      size := congrArg Array.size hf.steps
      count := congrArg Array.size hf.workflows
      steps := fun s _ => hf.step s
      others := fun v _ => hf.workflow v
      id := by rw [hf.workflow]
      context := by rw [hf.workflow]
      listeners := by rw [hf.workflow]
      queueId := hf.queueId
      queue := fun s hs => by rw [hf.desk]; exact hr.others s hs
      running := fun id v hv => by
        rw [running?_eq, hf.desk]
        exact ⟨hr.lost id v, hr.kept id v hv⟩
      gained := fun id hid => by
        rw [running?_eq, hf.desk] at hid
        exact hr.lost id w hid
      finished := fun v hv => by rw [hf.desk]; exact hr.finished v hv }

/-- A queue that is the manager's has the same of the steps of the workflow. -/
theorem SamePrecinct.isQueued (hsame : SamePrecinct m part mine w e e') (hs : mine s) {q : QueueId}
    (hqueue : (e.manager m).queue = q) : isQueued e q s = isQueued e' q s := by
  subst hqueue
  rw [Bool.eq_iff_iff]
  refine List.contains_iff_mem.trans (Iff.trans ?_ List.contains_iff_mem.symm)
  rw [hsame.queueId]
  have hmem := hsame.queue s hs
  unfold Engine.desk at hmem
  rwa [hsame.queueId] at hmem

/-- A step that is bound to no other workflow is bound alike. -/
theorem SamePrecinct.boundTo? (hsame : SamePrecinct m part mine w e e') (hs : mine s)
    (hb : ∀ v, boundTo? e m s = some v → v = w) (hb' : ∀ v, boundTo? e' m s = some v → v = w) :
    boundTo? e m s = boundTo? e' m s := by
  have hiff : Engine.boundTo? e m s = some w ↔ Engine.boundTo? e' m s = some w := by
    unfold Engine.boundTo?
    rw [(hsame.step s hs).workflowId]
    exact hsame.running _
  cases hx : Engine.boundTo? e m s with
  | some v =>
    obtain rfl := hb v hx
    exact (hiff.mp hx).symm
  | none =>
    cases hx' : Engine.boundTo? e' m s with
    | none => rfl
    | some v =>
      obtain rfl := hb' v hx'
      rw [hiff.mpr hx'] at hx
      contradiction

section Refiled

variable (hpair : Paired m part mine w b b' e e')
include hpair

theorem Paired.refiled (hf : Files m d e e₁) (hu : Unstirred part e e₁) (hf' : Files m d' e' e₁')
    (hu' : Unstirred part e' e₁') (hr : Rearranged m mine w e d) (hr' : Rearranged m mine w e' d')
    (hd : SameEntries mine w d d') : Paired m part mine w b b' e₁ e₁' where
  same :=
    { size := by rw [hf.steps, hf'.steps]; exact hpair.same.size
      extent := by rw [hu.extent, hu'.extent]; exact hpair.same.extent
      step := fun s hs => by rw [hf.step, hf'.step]; exact hpair.same.step s hs
      errors := fun s hs => by rw [hf.step, hf'.step]; exact hpair.same.errors s hs
      workflow := by rw [hf.workflow, hf'.workflow]; exact hpair.same.workflow
      context := by rw [hf.workflow, hu.contexts, hu'.contexts]; exact hpair.same.context
      part := by rw [hu.parts, hu'.parts]; exact hpair.same.part
      queueId := by rw [hf.queueId, hf'.queueId]; exact hpair.same.queueId
      queue := by rw [hf.desk, hf'.desk]; exact hd.queue
      running := fun id => by rw [running?_eq, running?_eq, hf.desk, hf'.desk]; exact hd.running id
      finished := by rw [hf.desk, hf'.desk]; exact hd.finished }
  left := hpair.left.refiled hf hu hr
  right := hpair.right.refiled hf' hu' hr'

/-- The desks have the same of the workflow as long as nobody rearranges them. -/
theorem Paired.sameEntries : SameEntries mine w (e.desk m) (e'.desk m) :=
  ⟨hpair.same.queue, hpair.same.running, hpair.same.finished⟩

theorem Paired.belongs (hs : mine s) : e.belongs w s = e'.belongs w s := by
  unfold Engine.belongs
  rw [(hpair.same.step s hs).workflowId, hpair.same.workflow.id]

/-- If the manager listens to the workflow, the workflow's id leads to the same in both engines. -/
theorem Paired.running? (hl : .manager m ∈ (e.workflow w).listeners) :
    running? e m (e.workflow w).id = some w ∧ running? e' m (e.workflow w).id = some w ∨
      running? e m (e.workflow w).id = none ∧ running? e' m (e.workflow w).id = none := by
  have hl' : .manager m ∈ (e'.workflow w).listeners := by
    rw [← hpair.same.workflow.listeners]
    exact hl
  have hsame := hpair.same.running (e.workflow w).id
  -- Whatever the id leads to is the workflow, since it has its home with this manager.
  cases hrun : Engine.running? e m (e.workflow w).id with
  | some v =>
    cases hpair.left.home hl v hrun
    exact .inl ⟨rfl, hsame.mp hrun⟩
  | none =>
    cases hrun' : Engine.running? e' m (e.workflow w).id with
    | none => exact .inr ⟨rfl, rfl⟩
    | some v =>
      rw [hpair.same.workflow.id] at hrun'
      cases hpair.right.home hl' v hrun'
      rw [← hpair.same.workflow.id] at hrun'
      rw [hsame.mpr hrun'] at hrun
      contradiction

end Refiled

/-! ## Telling listeners -/

section Telling

variable (hq : h.Quiet) (hdis : h.Unobtrusive part)
include hq hdis

omit hq in
/-- Actions that rearrange the desks alike agree. -/
theorem Paired.agree_of_files {n n' : Act σ Unit} (hpair : Paired m part mine w b b' e e')
    (hn : n.Ends e (fun _ e₁ => Files m d e e₁) (fun _ e₁ => Files m d e e₁ ∧ ¬h.Silent))
    (hn' : n'.Ends e' (fun _ e₁ => Files m d' e' e₁) (fun _ e₁ => Files m d' e' e₁ ∧ ¬h.Silent))
    (hu : n.Always (Unstirred part)) (hu' : n'.Always (Unstirred part))
    (hr : Rearranged m mine w e d) (hr' : Rearranged m mine w e' d') (hd : SameEntries mine w d d') :
    Agree (Paired m part mine w b b') Quietly n n' e e' := by
  refine agree_of_ends ((hn.and (hu.ends e)).mono (fun _ _ hq => hq) fun _ _ hf => hf.1.2 hdis.silent)
    ((hn'.and (hu'.ends e')).mono (fun _ _ hq => hq) fun _ _ hf => hf.1.2 hdis.silent) ?_
  rintro _ e₁ _ e₁' ⟨hf, hu⟩ ⟨hf', hu'⟩
  exact ⟨trivial, hpair.refiled hf hu hf' hu' hr hr' hd⟩

omit hq in
/-- Where only observers are told, the desks stay as they are. -/
theorem Paired.agree_of_core {n n' : Act σ Unit} (hpair : Paired m part mine w b b' e e')
    (hn : ∀ e : Engine σ, n.Ends e (fun _ e₁ => e₁.core = e.core) (fun _ e₁ => e₁.core = e.core ∧ ¬h.Silent))
    (hn' : ∀ e : Engine σ, n'.Ends e (fun _ e₁ => e₁.core = e.core)
      (fun _ e₁ => e₁.core = e.core ∧ ¬h.Silent))
    (hu : n.Always (Unstirred part)) (hu' : n'.Always (Unstirred part)) :
    Agree (Paired m part mine w b b') Quietly n n' e e' := by
  refine hpair.agree_of_files hdis ((hn e).mono ?_ ?_) ((hn' e').mono ?_ ?_) hu hu'
    (rearranged_self hpair.left.toPrecinct) (rearranged_self hpair.right.toPrecinct) hpair.sameEntries
  · exact fun _ _ hc => files_of_core hpair.left.hasDesk hc
  · exact fun _ _ hc => ⟨files_of_core hpair.left.hasDesk hc.1, hc.2⟩
  · exact fun _ _ hc => files_of_core hpair.right.hasDesk hc
  · exact fun _ _ hc => ⟨files_of_core hpair.right.hasDesk hc.1, hc.2⟩

theorem Paired.agree_emitQueue {q q' : QueueId} {kind : EventKind} (hk : kind.isOfQueue = true)
    (hpair : Paired m part mine w b b' e e') :
    Agree (Paired m part mine w b b') Quietly (emitQueue h q s kind) (emitQueue h q' s kind) e e' :=
  hpair.agree_of_core hdis (emitQueue_ends hq q s kind) (emitQueue_ends hq q' s kind)
    (always_emitQueue (fun l event _ => hdis.unstirred l event) q s hk)
    (always_emitQueue (fun l event _ => hdis.unstirred l event) q' s hk)

theorem Paired.agree_dequeue (hs : mine s) {q : QueueId} (hqueue : (b.manager m).queue = q)
    (hpair : Paired m part mine w b b' e e') :
    Agree (Paired m part mine w b b') Quietly (dequeue h q s) (dequeue h q s) e e' := by
  have hsame := hpair.same.isQueued hs (hpair.left.within.queueId.trans hqueue)
  cases hin : isQueued e q s with
  | false =>
    -- What is not in the queue is not taken out of it.
    apply agree_get_bind
    refine Agree.onlyIf hsame (fun hc => ?_) hpair
    rw [hin] at hc
    contradiction
  | true =>
    obtain rfl : q = (e.manager m).queue := hqueue.symm.trans hpair.left.within.queueId.symm
    have hdec := hpair.left.decisions s (List.contains_iff_mem.mp hin)
    have hdec' : (e'.step s).isDecision = true := (hpair.same.step s hs).isDecision ▸ hdec
    have hunstirred : (dequeue h (e.manager m).queue s).Always (Unstirred part) :=
      always_dequeue (fun l event _ => hdis.unstirred l event) unstirred_of_off _ s
    have hends' := dequeue_ends hq hpair.right.hasDesk hdec'
    rw [← hpair.same.queueId] at hends'
    refine hpair.agree_of_files hdis (dequeue_ends hq hpair.left.hasDesk hdec) hends' hunstirred hunstirred
      (rearranged_without hpair.left.toPrecinct hs) (rearranged_without hpair.right.toPrecinct hs)
      { hpair.sameEntries with queue := fun t ht => ?_ }
    rw [Desk.mem_keeping, Desk.mem_keeping, hpair.same.queue t ht]

section Managing

variable (hpair : Paired m part mine w b b' e e')
  (hrun : Engine.running? e m (e.workflow w).id = some w)
  (hrun' : Engine.running? e' m (e.workflow w).id = some w)
include hpair hrun hrun'

/-- The manager queues the decision that the workflow waits for. -/
theorem Paired.agree_onWaiting :
    Agree (Paired m part mine w b b') Quietly (onWaiting h m w) (onWaiting h m w) e e' := by
  have hw := hpair.same.workflow
  have hcur : (e.workflow w).current? = (e'.workflow w).current? := by
    unfold Workflow.current?
    rw [hw.state, hw.current]
  apply agree_get_bind
  rw [hcur]
  cases hc : (e'.workflow w).current? with
  | none => exact agree_pure trivial hpair
  | some s =>
    have hs : s = (e'.workflow w).current := by
      unfold Workflow.current? at hc
      split at hc
      · contradiction
      · exact (Option.some.inj hc).symm
    have hmine : mine s := hs ▸ hpair.right.current
    refine Agree.onlyIf (hpair.same.step s hmine).isDecision (fun hdec => ?_) hpair
    have hdec' : (e'.step s).isDecision = true := (hpair.same.step s hmine).isDecision ▸ hdec
    have hb' : e'.belongs w s = true := hs ▸ hpair.right.bound
    have hb : e.belongs w s = true := (hpair.belongs hmine).trans hb'
    have hunstirred : ∀ q, (enqueue h q s).Always (Unstirred part) := fun q =>
      always_enqueue (fun l event _ => hdis.unstirred l event) unstirred_of_off q s
    -- Both managers enlist the one decision, each on a desk that is otherwise its own.
    refine hpair.agree_of_files hdis (enqueue_ends hq hpair.left.hasDesk hdec)
      (enqueue_ends hq hpair.right.hasDesk hdec') (hunstirred _) (hunstirred _)
      (rearranged_enlisted hpair.left.toPrecinct hmine hdec hrun hb)
      (rearranged_enlisted hpair.right.toPrecinct hmine hdec' (hw.id ▸ hrun') hb')
      { hpair.sameEntries with queue := fun t ht => ?_ }
    rw [Desk.mem_enlisted, Desk.mem_enlisted, hpair.same.queue t ht]

/-- The manager files the workflow that is over. -/
theorem Paired.agree_onFinished :
    Agree (Paired m part mine w b b') Quietly (onFinished h m w) (onFinished h m w) e e' := by
  have hrun₁ : Engine.running? e' m (e'.workflow w).id = some w := hpair.same.workflow.id ▸ hrun'
  have hunstirred : (onFinished h m w).Always (Unstirred part) :=
    always_onFinished (fun l event _ => hdis.unstirred l event) unstirred_of_off m w
  refine hpair.agree_of_files hdis
    ((onFinished_ends hq hpair.left.hasDesk hpair.left.decisions hrun).mono (fun _ _ hf => hf)
      fun _ _ hf => absurd hdis.silent hf.1)
    ((onFinished_ends hq hpair.right.hasDesk hpair.right.decisions hrun₁).mono (fun _ _ hf => hf)
      fun _ _ hf => absurd hdis.silent hf.1)
    hunstirred hunstirred (rearranged_filed hpair.left.toPrecinct hrun)
    (rearranged_filed hpair.right.toPrecinct hrun₁) ⟨fun t ht => ?_, fun id => ?_, ?_⟩
  · -- What belongs to the workflow is dropped on both sides, and that is the same.
    refine Desk.mem_keeping.trans (Iff.trans ?_ Desk.mem_keeping.symm)
    rw [hpair.same.queue t ht, hpair.belongs ht]
  · show Entries.get? id (Entries.erase _ (e.desk m).running) = _ ↔
      Entries.get? id (Entries.erase _ (e'.desk m).running) = _
    rw [← hpair.same.workflow.id]
    by_cases hid : id = (e.workflow w).id
    · rw [hid, Entries.get?_erase_self hpair.left.keys, Entries.get?_erase_self hpair.right.keys]
    · rw [Entries.get?_erase_of_ne _ hid, Entries.get?_erase_of_ne _ hid]
      exact hpair.same.running id
  · exact iff_of_true (List.mem_append_right _ List.mem_cons_self)
      (List.mem_append_right _ List.mem_cons_self)

end Managing

theorem Paired.agree_manage (hpair : Paired m part mine w b b' e e') {kind : EventKind}
    (hl : .manager m ∈ (e.workflow w).listeners) :
    Agree (Paired m part mine w b b') Quietly (manage h m ⟨(e.workflow w).id, kind⟩)
      (manage h m ⟨(e.workflow w).id, kind⟩) e e' := by
  apply agree_get_bind
  rcases hpair.running? hl with ⟨hrun, hrun'⟩ | ⟨hrun, hrun'⟩
  · have hget : Entries.get? (e.workflow w).id (e.manager m).running = some w := hrun
    have hget' : Entries.get? (e.workflow w).id (e'.manager m).running = some w := hrun'
    rw [hget, hget']
    cases kind with
    | waiting n => exact hpair.agree_onWaiting hq hdis hrun hrun'
    | completed o => exact hpair.agree_onFinished hq hdis hrun hrun'
    | aborted o => exact hpair.agree_onFinished hq hdis hrun hrun'
    | _ => exact agree_pure trivial hpair
  · have hget : Entries.get? (e.workflow w).id (e.manager m).running = none := hrun
    have hget' : Entries.get? (e.workflow w).id (e'.manager m).running = none := hrun'
    rw [hget, hget']
    exact agree_pure trivial hpair

/-- What is told of the workflow stays in its precinct. -/
theorem Paired.agree_emit (hpair : Paired m part mine w b b' e e') {kind : EventKind} :
    Agree (Paired m part mine w b b') Quietly (emit h w kind) (emit h w kind) e e' := by
  have hw := hpair.same.workflow
  apply agree_get_bind
  dsimp only
  rw [← hw.listeners, ← hw.id]
  have hid := hpair.left.within.id
  have hlisteners := hpair.left.within.listeners
  refine Agree.forM _ (fun l hl e₁ e₁' hpair₁ => ?_) hpair
  have hid₁ := hpair₁.left.within.id
  have hlisteners₁ := hpair₁.left.within.listeners
  cases l with
  | observer l =>
    exact hpair₁.agree_of_core hdis (observe_ends hq l _) (observe_ends hq l _)
      (hdis.unstirred l _) (hdis.unstirred l _)
  | manager n =>
    -- Only one manager may listen, and the listeners are those of the beginning.
    cases hpair.left.audience n hl
    have hsame : (e.workflow w).id = (e₁.workflow w).id := hid.trans hid₁.symm
    unfold tell
    dsimp only
    rw [hsame]
    refine hpair₁.agree_manage hq hdis ?_
    rw [hlisteners₁, ← hlisteners]
    exact hl

end Telling

/-! ## Operations -/

section Hooked

variable (hq : h.Quiet) (hdis : h.Unobtrusive part) (hk : h.KeepTo m part mine w)

theorem Paired.agree_minds {α : Type} {V : α → α → Prop} {n : Act σ α} (hn : Minds m part mine w s V n)
    (hc : n.Always fun e e' => e'.core = e.core) (hs : mine s) (hpair : Paired m part mine w b b' e e') :
    Agree (Paired m part mine w b b') V n n e e' := by
  have hl := hpair.left.lodged s hs
  have hl' := hpair.right.lodged s hs
  refine ((hn.sees e e' hpair.same hl hl').and (P := fun e₁ e₁' =>
    (e₁.core = e.core ∧ Contained part w e e₁) ∧ e₁'.core = e'.core ∧ Contained part w e' e₁')
    ⟨⟨hc e, hn.keeps e hl⟩, hc e', hn.keeps e' hl'⟩).mono (fun _ _ hv => hv) ?_
  rintro e₁ e₁' ⟨hsame, ⟨hcore, hcontained⟩, hcore', hcontained'⟩
  exact hpair.of_core hsame hcore hcontained hcore' hcontained'

include hq hdis hk in
theorem accord_paired : Accord (.untimed σ) mine w False (Paired m part mine w b b') h h where
  starting hs _ _ hpair := hpair.agree_minds (hk.starting _ hs) (hq.starting _) hs
  execute hs c _ _ hpair := hpair.agree_minds (hk.execute _ c hs) (hq.execute _ c) hs
  present hs c _ _ hpair := hpair.agree_minds (hk.present _ c hs) (hq.present _ c) hs
  opens _ _ _ hpair := hpair.agree_emit hq hdis
  closes _ _ _ hpair := (hpair.agree_emit hq hdis).curtailed
  room := rfl

end Hooked

/-- An operation with what it tells of its result. -/
def reply (h : Hooks σ γ) : Operation σ γ → Act σ (Option WorkflowState)
  | .advance w context => do return some (← advance h w context)
  | .start m w context => do return some (← startManaged h m w context)
  | .decide m s o actor context => do return some (← Engine.decide h m s o actor context)
  | op => do
    perform h op
    return none

/-- The operation is one on the workflow `w` or on a decision of its own in the queue of its manager `m`. -/
def Concerns (m : ManagerId) (mine : StepId → Prop) (w : WorkflowId) (e : Engine σ) : Operation σ γ → Prop
  | .advance v _ => v = w
  | .abort v => v = w
  | .decide n s _ _ _ => n = m ∧ mine s ∧ ∀ v, boundTo? e m s = some v → v = w
  | .decideQueued q s _ _ => q = (e.manager m).queue ∧ mine s
  | .reassignQueued q s _ => q = (e.manager m).queue ∧ mine s
  | _ => False

/-- The workflow has a precinct, and if its manager listens to it, it is registered as long as it is live. -/
structure Resides (m : ManagerId) (mine : StepId → Prop) (w : WorkflowId) (e : Engine σ) : Prop
    extends Precinct m mine w e where
  live : .manager m ∈ (e.workflow w).listeners → (e.workflow w).state.isTerminal = false →
    running? e m (e.workflow w).id = some w

/-- The engines `e` and `e'` have the same precinct of `w`, to which the changes from `b` and `b'` have
kept. -/
structure Upheld (m : ManagerId) (part : WorkflowId → σ → κ) (mine : StepId → Prop) (w : WorkflowId)
    (b b' e e' : Engine σ) : Prop where
  same : SamePrecinct m part mine w e e'
  left : Precinct m mine w e
  right : Precinct m mine w e'
  within : Within m part mine w b e
  within' : Within m part mine w b' e'

theorem Paired.upheld (hpair : Paired m part mine w b b' e e') : Upheld m part mine w b b' e e' :=
  ⟨hpair.same, hpair.left.toPrecinct, hpair.right.toPrecinct, hpair.left.within, hpair.right.within⟩

theorem run_reply (op : Operation σ γ) (e : Engine σ) : ((reply h op).run e).2 = next h e op := by
  cases op with
  | advance | start | decide => exact (state_bind_pure _ _ e).trans (state_bind_pure _ _ e).symm
  | _ => exact state_bind_pure _ _ e

section Reply

variable (hsame : SamePrecinct m part mine w e e') (hp : Precinct m mine w e) (hp' : Precinct m mine w e')
include hsame hp hp'

theorem SamePrecinct.upheld : Upheld m part mine w e e' e e' :=
  ⟨hsame, hp, hp', within_refl e, within_refl e'⟩

theorem SamePrecinct.paired (hrun : .manager m ∈ (e.workflow w).listeners →
    Engine.running? e m (e.workflow w).id = some w) : Paired m part mine w e e' e e' := by
  have hw := hsame.workflow
  refine ⟨hsame, ⟨hp, fun hl v hv => ?_, within_refl e⟩, ⟨hp', fun hl v hv => ?_, within_refl e'⟩⟩
  · exact Option.some.inj (hv.symm.trans (hrun hl))
  · rw [← hw.listeners] at hl
    rw [← hw.id] at hv
    exact Option.some.inj (hv.symm.trans ((hsame.running _).mp (hrun hl)))

end Reply

section Operations

variable {context : γ} {o : Outcome} {actor : Option Actor} {q : QueueId} (hq : h.Quiet)
  (hdis : h.Unobtrusive part) (hk : h.KeepTo m part mine w)

section Paired

variable (hpair : Paired m part mine w b b' e e')
include hq hdis hpair

include hk in
theorem Paired.agree_advance :
    Agree (Paired m part mine w b b') Eq (advance h w context) (advance h w context) e e' :=
  (paired_bond.advance takesErrors_paired (accord_paired hq hdis hk) hpair).agree fun _ => id

theorem Paired.agree_abort :
    Agree (Paired m part mine w b b') Quietly (abort h w) (abort h w) e e' := by
  have habort : Curtailed (Paired m part mine w b b') Quietly (fun _ => False) (abort h w) (abort h w) e e' :=
    paired_bond.abort (fun _ _ _ hpair => (hpair.agree_emit hq hdis).curtailed) hpair
  exact habort.agree fun _ => id

variable (hs : mine s) (hqueue : (b.manager m).queue = q)
include hs hqueue

theorem Paired.agree_decideQueued : Agree (Paired m part mine w b b') Quietly
    (decideQueued h q s o actor) (decideQueued h q s o actor) e e' :=
  paired_bond.decideQueued
    (fun hpair => hpair.same.isQueued hs (hpair.left.within.queueId.trans hqueue)) hs hpair rfl actor
    fun hpair => hpair.agree_dequeue hq hdis hs hqueue

theorem Paired.agree_reassignQueued : Agree (Paired m part mine w b b') Quietly
    (reassignQueued h q s actor) (reassignQueued h q s actor) e e' := by
  refine (paired_bond.requireQueued
    (fun hpair => hpair.same.isQueued hs (hpair.left.within.queueId.trans hqueue)) hs hpair).bind
    fun _ _ e₁ e₁' _ hpair => ?_
  apply agree_get_bind
  have hst := hpair.same.step s hs
  refine (paired_bond.reassign hs hpair).bind fun _ _ _ _ _ hpair => ?_
  rw [hst.number, hst.actor]
  exact hpair.agree_emitQueue hq hdis rfl

end Paired

/-! An operation that is refused fails alike in both engines. -/

section Refused

variable {M : Engine σ → Engine σ → Prop} {α : Type} {V : α → α → Prop} (hm : M e e')
include hm

theorem SamePrecinct.agree_unqueued (hsame : SamePrecinct m part mine w e e') (hs : mine s)
    {f f' : Unit → Act σ α} (hqueue : (e.manager m).queue = q) (hin : Engine.isQueued e q s = false) :
    Agree M V (requireQueued q s >>= f) (requireQueued q s >>= f') e e' := by
  have hrefused : Agree M (fun _ _ => False) (requireQueued q s : Act σ Unit) (requireQueued q s) e e' := by
    apply agree_get_bind
    rw [← hsame.isQueued hs hqueue, hin]
    refine (agree_numberOf (hsame.step s hs) hm).bind fun n _ _ _ hn hm => ?_
    subst hn
    exact agree_throw _ hm
  exact hrefused.bind fun _ _ _ _ hf _ => hf.elim

theorem SamePrecinct.agree_over (hsame : SamePrecinct m part mine w e e')
    (hover : (e.workflow w).state.isTerminal = true) {f f' : Unit → Act σ α} :
    Agree M V (failIf (e.workflow w).state.isTerminal
        (.workflowOver (e.workflow w).id (e.workflow w).state) >>= f)
      (failIf (e'.workflow w).state.isTerminal
        (.workflowOver (e'.workflow w).id (e'.workflow w).state) >>= f') e e' := by
  have hw := hsame.workflow
  refine agree_failIf_bind (by rw [hw.state]) (by rw [hw.id, hw.state]) hm fun hlive => ?_
  rw [hover] at hlive
  contradiction

end Refused

/-- An operation on the workflow gives the same result in engines that have the same precinct of it, and keeps
to that precinct. -/
theorem reply_upheld {op : Operation σ γ} (hq : h.Quiet) (hdis : h.Unobtrusive part)
    (hk : h.KeepTo m part mine w) (hsame : SamePrecinct m part mine w e e') (hr : Resides m mine w e)
    (hr' : Resides m mine w e') (hop : Concerns m mine w e op) (hop' : Concerns m mine w e' op) :
    Agree (Upheld m part mine w e e') Eq (reply h op) (reply h op) e e' := by
  have hup := hsame.upheld hr.toPrecinct hr'.toPrecinct
  have hpaired := hsame.paired hr.toPrecinct hr'.toPrecinct
  -- An operation that is refused changes nothing, so the rest is about workflows that are live and
  -- decisions that are queued: there the engines are paired.
  have hlive : (e.workflow w).state.isTerminal = false → Paired m part mine w e e' e e' := fun ht =>
    hpaired fun hl => hr.live hl ht
  have hqueued : ∀ {s}, mine s → Engine.isQueued e (e.manager m).queue s = true →
      Paired m part mine w e e' e e' := fun hs hin =>
    hpaired fun _ => (hr.queued _ (List.contains_iff_mem.mp hin) hs).1
  have htold : ∀ {α : Type} {V : α → α → Prop} {n n' : Act σ α},
      Agree (Paired m part mine w e e') V n n' e e' → Agree (Upheld m part mine w e e') V n n' e e' :=
    fun ha => ha.mono (fun _ _ => id) fun _ _ => Paired.upheld
  cases op with
  | advance v context =>
    obtain rfl : v = w := hop
    refine Agree.bind (V := Eq) ?_ fun a a' _ _ ha hup => agree_pure (congrArg some ha) hup
    cases hover : (e.workflow v).state.isTerminal with
    | true => exact agree_get_bind (hsame.agree_over hup hover)
    | false => exact htold ((hlive hover).agree_advance hq hdis hk)
  | abort v =>
    obtain rfl : v = w := hop
    refine Agree.bind (V := Quietly) ?_ fun _ _ _ _ _ hup => agree_pure rfl hup
    cases hover : (e.workflow v).state.isTerminal with
    | true => exact agree_get_bind (hsame.agree_over hup hover)
    | false => exact htold ((hlive hover).agree_abort hq hdis)
  | decide n s o actor context =>
    obtain ⟨rfl, hs, hbound⟩ := hop
    obtain ⟨-, -, hbound'⟩ := hop'
    refine Agree.bind (V := Eq) ?_ fun a a' _ _ ha hup => agree_pure (congrArg some ha) hup
    apply agree_get_bind
    have hboth := hsame.boundTo? hs hbound hbound'
    -- The step leads either to no workflow, in both engines, or to this one.
    cases hb : e.boundTo? n s with
    | none =>
      have hnone : running? e n ((e.step s).workflowId.getD 0) = none := hb
      have hnone' : running? e' n ((e'.step s).workflowId.getD 0) = none := hboth.symm.trans hb
      dsimp only
      rw [hnone, hnone']
      refine (agree_numberOf (hsame.step s hs) hup).bind fun n _ _ _ hn hup => ?_
      subst hn
      exact agree_throw _ hup
    | some v =>
      obtain rfl := hbound v hb
      have hrun : running? e n ((e.step s).workflowId.getD 0) = some v := hb
      have hrun' : running? e' n ((e'.step s).workflowId.getD 0) = some v := hboth.symm.trans hb
      have hpair := hpaired fun _ => by rw [hr.registered _ hrun]; exact hrun
      dsimp only
      rw [hrun, hrun', ← hsame.queueId]
      exact htold ((hpair.agree_decideQueued hq hdis hs rfl).bind fun _ _ _ _ _ hpair =>
        hpair.agree_advance hq hdis hk)
  | decideQueued q s o actor =>
    obtain ⟨rfl, hs⟩ := hop
    refine Agree.bind (V := Quietly) ?_ fun _ _ _ _ _ hup => agree_pure rfl hup
    cases hin : Engine.isQueued e (e.manager m).queue s with
    | false => exact hsame.agree_unqueued hup hs rfl hin
    | true => exact htold ((hqueued hs hin).agree_decideQueued hq hdis hs rfl)
  | reassignQueued q s actor =>
    obtain ⟨rfl, hs⟩ := hop
    refine Agree.bind (V := Quietly) ?_ fun _ _ _ _ _ hup => agree_pure rfl hup
    cases hin : Engine.isQueued e (e.manager m).queue s with
    | false => exact hsame.agree_unqueued hup hs rfl hin
    | true => exact htold ((hqueued hs hin).agree_reassignQueued hq hdis hs rfl)
  | _ => exact hop.elim

end Operations

end Engine

end ApprovalFlow
