import ApprovalFlow.Proofs.Management
import ApprovalFlow.Proofs.Operation
import ApprovalFlow.Proofs.Walk

/-!
# What operations on managed workflows come to

Every operation on the workflows of a manager comes to a few changes, one after another (`Dealing`): a
workflow is accepted, a decision is answered, a workflow conducts itself. The register stays in order as long
as nobody is started under an id that is in use (`Orderly.next`).
-/

namespace ApprovalFlow.Engine

open Act

variable {σ γ : Type} {h : Hooks σ γ} {m : ManagerId} {members : WorkflowId → Prop}
  {own : WorkflowId → StepId → Prop} {w v : WorkflowId} {s : StepId} {silent : Prop}
  {op : Operation σ γ} {e e₁ e' : Engine σ}

/-! ## Operations on managed workflows -/

def boundTo? (e : Engine σ) (m : ManagerId) (s : StepId) : Option WorkflowId :=
  running? e m ((e.step s).workflowId.getD 0)

def subject? (e : Engine σ) (m : ManagerId) : Operation σ γ → Option WorkflowId
  | .advance w _ => some w
  | .abort w => some w
  | .start _ w _ => some w
  | .decide _ s .. => boundTo? e m s
  | .decideQueued _ s .. => boundTo? e m s
  | _ => none

/-- The operation is one on the manager `m`, its queue or one of the workflows `members`. -/
def Manages (m : ManagerId) (members : WorkflowId → Prop) (e : Engine σ) : Operation σ γ → Prop
  | .advance w _ => members w
  | .abort w => members w
  | .reassign .. => True
  | .reassignQueued .. => True
  | .start n w _ => n = m ∧ members w
  | .decide n .. => n = m
  | .decideQueued q .. => q = (e.manager m).queue
  | .resolve .. => False
  | .other _ => False

/-- The id which the operation takes from the manager's counter is not in use. -/
def FreeId (m : ManagerId) (e : Engine σ) : Operation σ γ → Prop
  | .start _ w _ => (e.workflow w).state = .created → (e.workflow w).id = 0 →
      running? e m (e.desk m).nextId = none
  | _ => True

/-- What an operation comes to. -/
inductive Dealing (silent : Prop) (m : ManagerId) (members : WorkflowId → Prop)
    (own : WorkflowId → StepId → Prop) (op : Operation σ γ) (e e' : Engine σ) : Prop
  | reassigns (refused : ∀ w context, op = .start m w context → e.Refused m w)
      (reassigned : Reassigned m e e')
  | conducts (w : WorkflowId) (member : members w) (about : e.subject? m op = some w)
      (other : ∀ v context, op ≠ .start m v context) (conduct : Conduct silent m (own w) w e e')
  | answers (s : StepId) (queued : s ∈ (e.desk m).queue) (about : e.subject? m op = e.boundTo? m s)
      (other : ∀ v context, op ≠ .start m v context) (answered : Answered m s e e')
  | decides (s : StepId) (w : WorkflowId) (e₁ : Engine σ) (queued : s ∈ (e.desk m).queue)
      (about : e.subject? m op = e.boundTo? m s) (bound : e.boundTo? m s = some w)
      (other : ∀ v context, op ≠ .start m v context) (answered : Answered m s e e₁)
      (conduct : Conduct silent m (own w) w e₁ e')
  | starts (w : WorkflowId) (n : Int) (context : γ) (e₁ : Engine σ) (member : members w)
      (about : op = .start m w context) (created : (e.workflow w).state = .created)
      (accepted : Accepted m w n e e₁) (conduct : Conduct silent m (own w) w e₁ e')

namespace Orderly

variable (ho : Orderly m members own e)
include ho

/-- A queued decision is bound to the running workflow whose step it is. -/
theorem boundTo_queued (hs : s ∈ (e.desk m).queue) : ∃ v, members v ∧ own v s ∧
    e.boundTo? m s = some v := by
  obtain ⟨-, v, hv, hrun, hown, hb⟩ := ho.queued s hs
  refine ⟨v, hv, hown, ?_⟩
  unfold boundTo?
  rw [belongs_iff.mp hb]
  exact hrun

/-- A workflow is refused, or it is accepted and then advanced. -/
theorem startManaged_ends (hq : h.Quiet) (hw : members w) (context : γ) :
    (startManaged h m w context).Ends e
      (fun _ e' => ∃ n e₁, (e.workflow w).state = .created ∧ Accepted m w n e e₁ ∧
        Conduct h.Silent m (own w) w e₁ e')
      (fun _ e' => e' = e ∧ e.Refused m w ∨ ∃ n e₁, (e.workflow w).state = .created ∧
        Accepted m w n e e₁ ∧ Conduct h.Silent m (own w) w e₁ e') := by
  have hm := ho.member w hw
  unfold startManaged
  simp only [ends_bind, ends_get, ends_failIf]
  by_cases hst : (e.workflow w).state = .created
  case neg =>
    rw [bne_iff_ne.mpr hst, if_pos rfl]
    exact .inl ⟨trivial, .inl hst⟩
  obtain ⟨hobs, hcur, hun⟩ := ho.newcomers w hw hst
  rw [hcur] at hun
  have haccept := accept_ends ho.hasDesk hm.hasWorkflow (hm.hasStep _ (hcur ▸ hm.current)) hst hun
  -- Until it is accepted nothing has changed; from then on it is advanced, as it is now ready to be.
  rw [hst, bne_self_eq_false, if_neg Bool.false_ne_true]
  rw [ends_bind] at haccept
  refine haccept.mono (fun _ e₁ hreg => hreg.mono ?_ ?_) ?_
  · rintro _ e₁ ⟨n, ha⟩
    have hready := ha.ready ho.toRegistry hw hobs hcur
    refine (hready.conduct_advance hq context).mono (fun _ e' hc => ?_) fun _ e' hc => ?_
    · exact ⟨n, e₁, rfl, ha, hc⟩
    · exact .inr ⟨n, e₁, rfl, ha, hc⟩
  all_goals exact fun _ _ hx => .inl hx

theorem dealing_advance (hq : h.Quiet) (hw : members w) (context : γ) :
    Dealing h.Silent m members own (.advance w context) e (next h e (.advance w context)) := by
  refine Ends.state ?_
  show (advance h w context >>= fun _ => pure ()).Ends e _ _
  rw [ends_bind]
  refine ((ho.ready hw).conduct_advance hq context).mono (fun _ e' hc => ?_) fun _ e' hc => ?_
  all_goals exact .conducts w hw rfl nofun hc

theorem dealing_abort (hq : h.Quiet) (hw : members w) :
    Dealing h.Silent m members own (.abort w : Operation σ γ) e (next h e (.abort w)) := by
  refine Ends.state (((ho.ready hw).conduct_abort hq).mono (fun _ e' hc => ?_) fun _ e' hc => ?_)
  all_goals exact .conducts w hw rfl nofun hc

theorem dealing_start (hq : h.Quiet) (hw : members w) (context : γ) :
    Dealing h.Silent m members own (.start m w context) e (next h e (.start m w context)) := by
  refine Ends.state ?_
  show (startManaged h m w context >>= fun _ => pure ()).Ends e _ _
  rw [ends_bind]
  refine (ho.startManaged_ends hq hw context).mono ?_ ?_
  · rintro _ e' ⟨n, e₁, hst, ha, hc⟩
    exact .starts w n context e₁ hw rfl hst ha hc
  · rintro _ e' (⟨rfl, hrefused⟩ | ⟨n, e₁, hst, ha, hc⟩)
    · refine .reassigns (fun v c hop => ?_) (reassigned_refl ho.hasDesk)
      injection hop with _ hv _
      exact hv ▸ hrefused
    · exact .starts w n context e₁ hw rfl hst ha hc

theorem dealing_decideQueued (hq : h.Quiet) (s : StepId) (o : Outcome) (actor : Option Actor) :
    Dealing h.Silent m members own (.decideQueued (e.manager m).queue s o actor : Operation σ γ) e
      (next h e (.decideQueued (e.manager m).queue s o actor)) := by
  refine Ends.state ((decideQueued_ends hq ho.hasDesk o actor).mono ?_ ?_)
  · rintro _ e' ⟨hs, ha⟩
    exact .answers s hs rfl nofun ha
  · rintro _ e' (rfl | ⟨hs, ha⟩)
    · exact .reassigns nofun (reassigned_refl ho.hasDesk)
    · exact .answers s hs rfl nofun ha

theorem dealing_decide (hq : h.Quiet) (s : StepId) (o : Outcome) (actor : Option Actor) (context : γ) :
    Dealing h.Silent m members own (.decide m s o actor context) e
      (next h e (.decide m s o actor context)) := by
  have hsame : Dealing h.Silent m members own (.decide m s o actor context) e e :=
    .reassigns nofun (reassigned_refl ho.hasDesk)
  refine Ends.state ?_
  show (decide h m s o actor context >>= fun _ => pure ()).Ends e _ _
  unfold Engine.decide
  simp only [ends_bind, ends_get]
  -- Without a running workflow the decision is refused before it is looked at.
  cases hbound : e.boundTo? m s with
  | none =>
    have hnone : running? e m ((e.step s).workflowId.getD 0) = none := hbound
    rw [hnone]
    dsimp only
    rw [ends_bind]
    unfold numberOf
    rw [ends_bind, ends_get]
    dsimp only
    split <;> exact hsame
  | some w =>
    have hsome : running? e m ((e.step s).workflowId.getD 0) = some w := hbound
    rw [hsome]
    dsimp only
    rw [ends_bind]
    refine (decideQueued_ends hq ho.hasDesk o actor).mono ?_ ?_
    · rintro _ e₁ ⟨hs, ha⟩
      have hw := (ho.registered _ w hsome).1
      -- The answer leaves the register in order, so the workflow can be advanced.
      have hready := (ho.of_answered ha hs).ready hw
      refine (hready.conduct_advance hq context).mono (fun _ e' hc => ?_) fun _ e' hc => ?_
      all_goals exact .decides s w e₁ hs rfl hbound nofun ha hc
    · rintro _ e' (rfl | ⟨hs, ha⟩)
      · exact hsame
      · exact .answers s hs rfl nofun ha

/-- Whatever is done with the workflows of a manager is a dealing. -/
theorem dealing (hq : h.Quiet) (hop : Manages m members e op) :
    Dealing h.Silent m members own op e (next h e op) := by
  cases op with
  | advance w context => exact ho.dealing_advance hq hop context
  | abort w => exact ho.dealing_abort hq hop
  | start n w context =>
    obtain ⟨rfl, hw⟩ := hop
    exact ho.dealing_start hq hw context
  | decide n s o actor context =>
    have hn : n = m := hop
    subst hn
    exact ho.dealing_decide hq s o actor context
  | decideQueued q s o actor =>
    have hq' : q = (e.manager m).queue := hop
    subst hq'
    exact ho.dealing_decideQueued hq s o actor
  | reassign s actor =>
    refine Ends.state ((reassign_reassigned ho.hasDesk actor).mono (fun _ _ hr => ?_) fun _ _ hr => ?_)
    all_goals exact .reassigns nofun hr
  | reassignQueued q s actor =>
    refine Ends.state
      ((reassignQueued_reassigned hq ho.hasDesk q actor).mono (fun _ _ hr => ?_) fun _ _ hr => ?_)
    all_goals exact .reassigns nofun hr
  | resolve | other => exact hop.elim

end Orderly

section Dealing

variable (hd : Dealing silent m members own op e e') (ho : Orderly m members own e)
  (hfree : FreeId m e op)
include hd ho hfree

omit hd ho in
/-- A workflow is accepted under an id that is not in use. -/
theorem Accepted.free {n : Int} {context : γ} (ha : Accepted m w n e e₁)
    (hop : op = .start m w context) (hst : (e.workflow w).state = .created) :
    ApprovalFlow.Engine.running? e m n = none := by
  subst hop
  rcases ha.id with ⟨hid, rfl, -⟩ | ⟨-, -, -, hnone⟩
  · exact hfree hst hid
  · exact hnone

/-- The register stays in order. -/
theorem Dealing.orderly : Orderly m members own e' := by
  cases hd with
  | reassigns _ hr => exact ho.of_reassigned hr
  | answers s hs _ _ ha => exact ho.of_answered ha hs
  | conducts w hw _ _ hc =>
    exact ⟨ho.of_conduct hw hc, ho.newcomers_conduct hw hc fun v hv _ => ho.newcomers v hv⟩
  | decides s w e₁ hs _ hb _ ha hc =>
    have ho₁ := ho.of_answered ha hs
    have hw := (ho.registered _ w hb).1
    exact ⟨ho₁.of_conduct hw hc, ho₁.newcomers_conduct hw hc fun v hv _ => ho₁.newcomers v hv⟩
  | starts w n context e₁ hw hop hst ha hc =>
    obtain ⟨hobs, hcur, -⟩ := ho.newcomers w hw hst
    have hr₁ := ho.toRegistry.of_accepted ha hw hobs hcur (ha.free hfree hop hst)
    exact ⟨hr₁.of_conduct hw hc, hr₁.newcomers_conduct hw hc (ha.newcomers ho hw hcur)⟩

/-- The workflows that the operation is not about are spared. -/
theorem Dealing.spares (hv : members v) (hne : e.subject? m op ≠ some v) : Spares m own v e e' := by
  cases hd with
  | reassigns _ hr => exact spares_of_desk hr.desk
  | conducts w hw hop _ hc =>
    refine ho.spares_conduct hw hc hv ?_
    rintro rfl
    exact hne hop
  | answers s hs hop _ ha =>
    obtain ⟨u, hu, hown, hb⟩ := ho.boundTo_queued hs
    refine ha.spares ho.toRegistry hv hu hown ?_
    rintro rfl
    exact hne (hop.trans hb)
  | decides s w e₁ hs hop hb _ ha hc =>
    have hw := (ho.registered _ w hb).1
    have hwv : w ≠ v := by
      rintro rfl
      exact hne (hop.trans hb)
    -- The queued decision is a step of the very workflow that is advanced.
    obtain ⟨u, -, hown, hbu⟩ := ho.boundTo_queued hs
    rw [hb] at hbu
    have huw : w = u := Option.some.inj hbu
    subst huw
    exact (ha.spares ho.toRegistry hv hw hown hwv).trans
      ((ho.of_answered ha hs).spares_conduct hw hc hv hwv)
  | starts w n context e₁ hw hop hst ha hc =>
    have hfree' := ha.free hfree hop hst
    have hwv : w ≠ v := by
      rintro rfl
      exact hne (by rw [hop]; rfl)
    obtain ⟨hobs, hcur, -⟩ := ho.newcomers w hw hst
    have hr₁ := ho.toRegistry.of_accepted ha hw hobs hcur hfree'
    exact (ha.spares hfree').trans (hr₁.spares_conduct hw hc hv hwv)

end Dealing

def graph (e : Engine σ) (w : WorkflowId) : StepId → Prop := e.Leads (e.workflow w).first

/-- A workflow whose first step has no successors has no other steps. -/
theorem eq_of_graph (hlast : e.targets (e.workflow w).first = []) (hs : e.graph w s) :
    s = (e.workflow w).first := by
  refine List.mem_singleton.mp (hs.mem (fun t ht x hx => ?_) (List.mem_singleton_self _))
  rw [List.mem_singleton.mp ht, hlast] at hx
  contradiction

/-- The manager `m` has nothing to do yet. The workflows `members` have not started; each has a graph of
fresh steps, which it shares with none of the others. -/
structure Opening (m : ManagerId) (members : WorkflowId → Prop) (e : Engine σ) : Prop where
  hasDesk : e.HasDesk m
  desk : e.desk m = ⟨1, [], [], []⟩
  hasWorkflow : ∀ w, members w → e.HasWorkflow w
  created : ∀ w, members w → (e.workflow w).state = .created
  observed : ∀ w, members w → (e.workflow w).Observed
  current : ∀ w, members w → (e.workflow w).current = (e.workflow w).first
  bound : ∀ w, members w → e.belongs w (e.workflow w).first = true
  fresh : ∀ w, members w → ∀ s, e.graph w s → e.HasStep s ∧ (e.step s).Fresh
  disjoint : ∀ w v, members w → members v → w ≠ v → ∀ s, e.graph w s → ¬e.graph v s

/-- In the beginning the register is in order. -/
theorem Opening.orderly (hop : Opening m members e) : Orderly m members e.graph e := by
  have hrun : ∀ id, running? e m id = none := by
    intro id
    rw [running?_eq, hop.desk]
    rfl
  refine
    { hasDesk := hop.hasDesk
      member := fun w hw => ⟨hop.hasWorkflow w hw, fun s hs => (hop.fresh w hw s hs).1,
        fun s hs t ht => hs.tail ht, ?_, ?_⟩
      disjoint := hop.disjoint
      listens := fun w hw => .inl (hop.observed w hw)
      registered := fun id v hid => ?_
      live := fun w hw hm _ => absurd hm (hop.observed w hw).not_managed
      keys := ?_
      queued := fun s hs => ?_
      finished := fun v hv => ?_
      newcomers := fun w hw _ => ⟨hop.observed w hw, hop.current w hw, ?_⟩ }
  · rw [hop.current w hw]; exact .refl
  · rw [hop.current w hw]; exact hop.bound w hw
  · rw [hrun] at hid
    contradiction
  · rw [hop.desk]; exact .nil
  · rw [hop.desk] at hs
    contradiction
  · rw [hop.desk] at hv
    contradiction
  · rw [hop.current w hw]; exact (hop.fresh w hw _ .refl).2.unstarted

/-! ## An office -/

def officeSteps : Engine (List StepId) where
  steps := #[Step.ofDecision "Decision" "grant" (some ⟨"anna"⟩) 1 [.approve, .deny] false,
    Step.ofDecision "Decision" "permit" (some ⟨"bert"⟩) 2 [.approve, .deny] true]
  clock := .counter 1 1
  host := []

/-- The office has a manager and two workflows. The first one brings an id, the second one does not. -/
def office (id : Int) : Engine (List StepId) :=
  ((do
    let _ ← addManager default
    let _ ← addWorkflow "grant" ⟨0⟩ none id []
    addWorkflow "permit" ⟨1⟩ none 0 []).run officeSteps).2

def OfficeWork (w : WorkflowId) : Prop := w ∈ [(⟨0⟩ : WorkflowId), ⟨1⟩]

def officeDay : List (Operation (List StepId) Unit) :=
  [.start ⟨0⟩ ⟨0⟩ (), .start ⟨0⟩ ⟨1⟩ (), .decide ⟨0⟩ ⟨0⟩ .approve (some ⟨"anna"⟩) ()]

theorem opening_office {id : Int} (hid : id ∈ [(0 : Int), 1, 7]) :
    Opening ⟨0⟩ OfficeWork (office id) := by
  have hall : ∀ id ∈ [(0 : Int), 1, 7], ((office id).HasManager ⟨0⟩ ∧
      (office id).HasQueue ((office id).manager ⟨0⟩).queue ∧
      (office id).desk ⟨0⟩ = ⟨1, [], [], []⟩) ∧
      ∀ w ∈ [(⟨0⟩ : WorkflowId), ⟨1⟩], (office id).HasWorkflow w ∧
        ((office id).workflow w).state = .created ∧ ((office id).workflow w).listeners = [] ∧
        ((office id).workflow w).first = ⟨w.index⟩ ∧ ((office id).workflow w).current = ⟨w.index⟩ ∧
        (office id).belongs w ⟨w.index⟩ = true ∧ (office id).targets ⟨w.index⟩ = [] ∧
        (office id).HasStep ⟨w.index⟩ ∧ ((office id).step ⟨w.index⟩).state = .created ∧
        ((office id).step ⟨w.index⟩).isStarted = false := by decide +kernel
  obtain ⟨⟨hm, hq, hdesk⟩, hw⟩ := hall id hid
  -- The graph of a workflow is its only step.
  have hgraph : ∀ w, OfficeWork w → ∀ s, (office id).graph w s → s = ⟨w.index⟩ := by
    intro w hmem s hs
    obtain ⟨-, -, -, hfirst, -, -, htargets, -⟩ := hw w hmem
    exact (eq_of_graph (by rw [hfirst]; exact htargets) hs).trans hfirst
  refine
    { hasDesk := ⟨hm, hq⟩
      desk := hdesk
      hasWorkflow := fun w hmem => (hw w hmem).1
      created := fun w hmem => (hw w hmem).2.1
      observed := fun w hmem => ⟨[], (hw w hmem).2.2.1⟩
      current := fun w hmem => ?_
      bound := fun w hmem => ?_
      fresh := fun w hmem s hs => ?_
      disjoint := fun w v hwm hvm hne s hs hs' => ?_ }
  · obtain ⟨-, -, -, hfirst, hcur, -⟩ := hw w hmem
    rw [hfirst, hcur]
  · obtain ⟨-, -, -, hfirst, -, hb, -⟩ := hw w hmem
    rw [hfirst]
    exact hb
  · obtain ⟨-, -, -, -, -, -, -, hstep, hst, hun⟩ := hw w hmem
    rw [hgraph w hmem s hs]
    exact ⟨hstep, hst, hun⟩
  · have hwv := (hgraph w hwm s hs).symm.trans (hgraph v hvm s hs')
    injection hwv with hi
    exact hne (congrArg WorkflowId.mk hi)

theorem manages_officeDay (e : Engine (List StepId)) :
    Along loggingHooks (Manages ⟨0⟩ OfficeWork) e officeDay :=
  ⟨⟨rfl, List.mem_cons_self⟩, ⟨rfl, List.mem_cons_of_mem _ List.mem_cons_self⟩, rfl, trivial⟩

end ApprovalFlow.Engine
