import ApprovalFlow.Proofs.ApprovalGraph

/-!
# What has been done to steps

A trail is what has been done to the steps of an engine, deed after deed, each with the engine that it left.
A deed is a successful elementary action on a step, or a workflow's going on to a successor; whatever else
happens leaves the lives of all steps as they are. However deeply hooks and listeners call the engine from
within each other, one thing is done at a time: every operation leaves a trail if what the hooks do leaves
one (`advance_treads`, `abort_treads`).
-/

namespace ApprovalFlow

namespace Step

/-- What a step goes through: all but what it is bound to and what is kept for its decision. -/
def life (st : Step) : Step := { st with workflowId := none, context := none, decision := none }

structure New (st : Step) : Prop where
  state : st.state = .created
  outcome : st.outcome.completion = false
  startTime : st.startTime = Instant.unset
  endTime : st.endTime = Instant.unset

/-- The step has been started, or it has left the state in which it was made. -/
def Begun (st : Step) : Prop := st.isStarted = true ∨ st.state ≠ .created

end Step

/-- What is done to steps. An outcome is given by what executing the step results in or by an abort, or it
is the answer of a caller. -/
inductive Deed where
  | start (s : StepId)
  | answer (s : StepId) (o : Outcome)
  | give (s : StepId) (o : Outcome)
  | reassign (s : StepId) (actor : Option Actor)
  | remark (s : StepId) (text : String)
  | link (s : StepId) (o : Outcome) (target : Option StepId)
  | make (s : StepId)
  /-- The workflow takes the step into its history. -/
  | leave (w : WorkflowId) (s : StepId)
  /-- The workflow goes on from the step. -/
  | go (w : WorkflowId) (s : StepId)
  /-- A look is taken at the engine. -/
  | look
  | other
  deriving DecidableEq

/-- What a deed makes of the step `t`, at a time. -/
inductive Step.Turn (now : Instant) (t : StepId) : Deed → Step → Step → Prop
  | rest {d : Deed} {a b : Step} (hd : d ≠ .start t) (h : b.life = a.life) : Turn now t d a b
  | make {a b : Step} (ha : a = default) (hb : b.New) : Turn now t (.make t) a b
  | start {a b : Step} (hs : a.isStarted = false) (hc : a.state = .created)
      (h : b.life = ({ a with state := .started, startTime := now } : Step).life) : Turn now t (.start t) a b
  | answer {o : Outcome} {a b : Step} (hc : a.isCompleted = false) (h : b.life = (a.given o now).life) :
      Turn now t (.answer t o) a b
  | give {o : Outcome} {a b : Step} (hb : a.Begun ∨ o.same .abort = true) (hc : a.isCompleted = false)
      (h : b.life = (a.given o now).life) : Turn now t (.give t o) a b
  | reassign {actor : Option Actor} {a b : Step} (hc : a.isCompleted = false)
      (h : b.life = ({ a with actor } : Step).life) : Turn now t (.reassign t actor) a b
  | remark {text : String} {a b : Step}
      (h : b.life = ({ a with errors := a.errors ++ [text] } : Step).life) : Turn now t (.remark t text) a b
  | link {o : Outcome} {target : Option StepId} {a b : Step} (h : b.life = (a.withSuccessor o target).life) :
      Turn now t (.link t o target) a b

namespace Step

variable {now : Instant} {t : StepId} {d : Deed} {a b : Step}

section Life

variable (h : b.life = a.life)
include h

theorem state_of_life : b.state = a.state := (congrArg state h : b.life.state = a.life.state)

theorem outcome_of_life : b.outcome = a.outcome := (congrArg outcome h : b.life.outcome = a.life.outcome)

theorem startTime_of_life : b.startTime = a.startTime :=
  (congrArg startTime h : b.life.startTime = a.life.startTime)

theorem endTime_of_life : b.endTime = a.endTime := (congrArg endTime h : b.life.endTime = a.life.endTime)

theorem actor_of_life : b.actor = a.actor := (congrArg actor h : b.life.actor = a.life.actor)

theorem errors_of_life : b.errors = a.errors := (congrArg errors h : b.life.errors = a.life.errors)

end Life

theorem new_default : (default : Step).New := ⟨rfl, rfl, rfl, rfl⟩

theorem New.withOutcomes (h : a.New) (outcomes : List Outcome) : (a.withOutcomes outcomes).New := by
  unfold Step.withOutcomes
  induction outcomes generalizing a with
  | nil => exact h
  | cons o outcomes ih => exact ih ⟨h.state, h.outcome, h.startTime, h.endTime⟩

theorem new_task (kind key : String) (actor : Option Actor) : (task kind key actor).New :=
  New.withOutcomes ⟨rfl, rfl, rfl, rfl⟩ _

theorem new_ofDecision (kind key : String) (actor : Option Actor) (number : Nat) (outcomes : List Outcome)
    (reassignable : Bool) : (ofDecision kind key actor number outcomes reassignable).New :=
  New.withOutcomes ⟨rfl, rfl, rfl, rfl⟩ _

theorem new_notification (kind key : String) (actor : Option Actor) (number : Nat) :
    (notification kind key actor number).New :=
  have h := new_ofDecision kind key actor number [.acknowledge] false
  ⟨h.state, h.outcome, h.startTime, h.endTime⟩

theorem New.not_begun (h : a.New) : ¬a.Begun := by
  rintro (hs | hs)
  · rw [isStarted, h.startTime] at hs
    contradiction
  · exact hs h.state

theorem Begun.congr (hb : a.Begun) (ht : b.startTime = a.startTime)
    (hs : a.state ≠ .created → b.state ≠ .created) : b.Begun :=
  hb.imp (fun h => by unfold isStarted at h ⊢; rwa [ht]) hs

theorem state_given_ne (ha : a.state ≠ .created) (o : Outcome) (now : Instant) :
    (a.given o now).state ≠ .created := by
  unfold given
  split
  · exact nofun
  · exact ha

/-- What has begun has begun for good. -/
theorem Turn.begun (ht : Turn now t d a b) (hb : a.Begun) : b.Begun := by
  cases ht with
  | rest _ h | reassign _ h | remark h | link h =>
    exact hb.congr ((startTime_of_life h).trans rfl) (state_of_life h).trans_ne
  | make ha => exact absurd hb (ha ▸ new_default.not_begun)
  | start _ _ h =>
    have hs : b.state = .started := state_of_life h
    exact .inr (hs.trans_ne nofun)
  | answer _ h | give _ _ h =>
    exact hb.congr ((startTime_of_life h).trans (startTime_given ..)) fun ha =>
      (state_of_life h).trans_ne (state_given_ne ha _ now)

end Step

namespace Engine

open Act
open Logging (Level)

variable {σ γ α : Type} {seen : σ → List Core} {may : StepId → Outcome → Prop} {h : Hooks σ γ} {w : WorkflowId}
  {s t : StepId} {o : Outcome} {actor : Option Actor} {context : γ} {e e' e'' : Engine σ}
  {trail trail' past rest : List (Deed × Engine σ)}

/-- No step's life has changed, no workflow has left a step or gone on, and no look was taken. -/
structure Aside (seen : σ → List Core) (e e' : Engine σ) : Prop where
  size : e'.steps.size = e.steps.size
  life : ∀ s, (e'.step s).life = (e.step s).life
  history : ∀ w, (e'.workflow w).history = (e.workflow w).history
  previous : ∀ w, (e'.workflow w).previous = (e.workflow w).previous
  reading : e'.clock.reading = e.clock.reading
  seen : seen e'.host = seen e.host

structure Looked (seen : σ → List Core) (e e' : Engine σ) : Prop where
  core : e'.core = e.core
  reading : e'.clock.reading = e.clock.reading
  seen : seen e'.host = seen e.host ++ [e.core]

inductive Did (seen : σ → List Core) : Deed → Engine σ → Engine σ → Prop
  | start {s : StepId} {e e' : Engine σ} (hs : e.HasStep s) (h : (startStep s).run e = (.ok (), e')) :
      Did seen (.start s) e e'
  | answer {s : StepId} {o : Outcome} {e e' : Engine σ} (hs : e.HasStep s)
      (h : (setOutcome s o).run e = (.ok (), e')) : Did seen (.answer s o) e e'
  | give {s : StepId} {o : Outcome} {e e' : Engine σ} (hs : e.HasStep s)
      (hb : (e.step s).Begun ∨ o.same .abort = true) (h : (setOutcome s o).run e = (.ok (), e')) :
      Did seen (.give s o) e e'
  | reassign {s : StepId} {actor : Option Actor} {e e' : Engine σ} (hs : e.HasStep s)
      (h : (Engine.reassign s actor).run e = (.ok (), e')) : Did seen (.reassign s actor) e e'
  | remark {s : StepId} {text : String} {e e' : Engine σ} (hs : e.HasStep s)
      (h : (addError s text).run e = (.ok (), e')) : Did seen (.remark s text) e e'
  | link {s : StepId} {o : Outcome} {target : Option StepId} {e e' : Engine σ} (hs : e.HasStep s)
      (h : (addSuccessor s o target).run e = (.ok (), e')) : Did seen (.link s o target) e e'
  | make {s : StepId} {st : Step} {e e' : Engine σ} (hn : st.New)
      (h : (addStep st).run e = (.ok s, e')) : Did seen (.make s) e e'
  | leave {w : WorkflowId} {s : StepId} {e e' : Engine σ} (hc : e.HasStep s → (e.step s).isCompleted = true)
      (h : (record w s).run e = (.ok (), e')) : Did seen (.leave w s) e e'
  | go {w : WorkflowId} {s t : StepId} {o : Outcome} {e e' : Engine σ}
      (hc : (e.step s).isCompleted = true) (ho : (e.step s).outcome.same .abort = false)
      (h : (follow w s t o).run e = (.ok (), e')) : Did seen (.go w s) e e'
  | look {e e' : Engine σ} (h : Looked seen e e') : Did seen .look e e'
  | other {e e' : Engine σ} (h : Aside seen e e') : Did seen .other e e'

/-- The deeds that lead from one engine to the other, each with the engine that it left. -/
inductive Trail (seen : σ → List Core) (e : Engine σ) : List (Deed × Engine σ) → Engine σ → Prop
  | nil : Trail seen e [] e
  | snoc {trail : List (Deed × Engine σ)} {e' e'' : Engine σ} {d : Deed}
      (ht : Trail seen e trail e') (hd : Did seen d e' e'') : Trail seen e (trail ++ [(d, e'')]) e''

def reached (e : Engine σ) (trail : List (Deed × Engine σ)) : Engine σ :=
  (trail.getLast?.map (·.2)).getD e

def deeds (trail : List (Deed × Engine σ)) : List Deed := trail.map (·.1)

/-- Steps are answered as they may be; one that is made on the trail, in any way from then on. -/
def Answers (may : StepId → Outcome → Prop) (trail : List (Deed × Engine σ)) : Prop :=
  ∀ past s o e', past ++ [(.answer s o, e')] <+: trail → may s o ∨ .make s ∈ deeds past

/-- There is a trail from one engine to the other, on which steps are answered as they may be. -/
def Treads (seen : σ → List Core) (may : StepId → Outcome → Prop) (e e' : Engine σ) : Prop :=
  ∃ trail, Trail seen e trail e' ∧ Answers may trail

def looks (trail : List (Deed × Engine σ)) : List Core :=
  trail.filterMap fun p => if p.1 = .look then some p.2.core else none

/-! ## Trails -/

theorem mem_deeds_concat {d : Deed} {p : Deed × Engine σ} :
    d ∈ deeds (trail ++ [p]) ↔ d ∈ deeds trail ∨ d = p.1 := by
  simp [deeds]

theorem Trail.append (ht : Trail seen e trail e') (ht' : Trail seen e' trail' e'') :
    Trail seen e (trail ++ trail') e'' := by
  induction ht' with
  | nil => rwa [List.append_nil]
  | snoc _ hd ih => rw [← List.append_assoc]; exact .snoc ih hd

theorem mem_deeds_append {d : Deed} : d ∈ deeds (trail ++ trail') ↔ d ∈ deeds trail ∨ d ∈ deeds trail' := by
  simp [deeds]

theorem answers_nil : Answers may ([] : List (Deed × Engine σ)) := fun _ _ _ _ hp => by simp at hp

theorem Answers.concat (ha : Answers may trail) {p : Deed × Engine σ}
    (hp : ∀ s o, p.1 = .answer s o → may s o ∨ .make s ∈ deeds trail) : Answers may (trail ++ [p]) := by
  intro past s o e₁ hpre
  rcases List.prefix_concat_iff.mp hpre with heq | hpre
  · obtain ⟨rfl, hp'⟩ := List.append_inj' heq rfl
    obtain rfl := List.singleton_inj.mp hp'
    exact hp s o rfl
  · exact ha past s o e₁ hpre

theorem Answers.append (ha : Answers may trail) (ha' : Answers may trail') : Answers may (trail ++ trail') := by
  induction trail' using List.reverseRecOn with
  | nil => rwa [List.append_nil]
  | append_singleton trail' p ih =>
    have hbefore : Answers may trail' := fun past s o e₁ hp =>
      ha' past s o e₁ (hp.trans (List.prefix_append ..))
    rw [← List.append_assoc]
    refine (ih hbefore).concat fun s o hp => ?_
    rw [mem_deeds_append]
    exact (ha' trail' s o p.2 (hp ▸ List.prefix_refl _)).imp_right .inr

instance : IsPreorder (Engine σ) (Treads seen may) where
  refl _ := ⟨[], .nil, answers_nil⟩
  trans := fun _ _ _ ⟨_, ht, ha⟩ ⟨_, ht', ha'⟩ => ⟨_, ht.append ht', ha.append ha'⟩

theorem Did.treads {d : Deed} (hd : Did seen d e e') (hm : ∀ s o, d = .answer s o → may s o) :
    Treads seen may e e' := ⟨_, .snoc .nil hd, answers_nil.concat fun s o h => .inl (hm s o h)⟩

theorem Aside.treads (ha : Aside seen e e') : Treads seen may e e' := (Did.other ha).treads nofun

theorem Trail.reached (ht : Trail seen e trail e') : e.reached trail = e' := by
  cases ht with
  | nil => rfl
  | snoc => simp [Engine.reached]

theorem Trail.exists_of_concat {p : Deed × Engine σ} (ht : Trail seen e (trail ++ [p]) e'') :
    ∃ e', Trail seen e trail e' ∧ Did seen p.1 e' e'' ∧ p.2 = e'' := by
  generalize hl : trail ++ [p] = l at ht
  cases ht with
  | nil => simp at hl
  | snoc ht hd =>
    obtain ⟨rfl, hp⟩ := List.append_inj' hl rfl
    obtain rfl := List.singleton_inj.mp hp
    exact ⟨_, ht, hd, rfl⟩

/-- A trail leads on from where its beginning leads to. -/
theorem Trail.split (ht : Trail seen e (past ++ rest) e') :
    Trail seen e past (e.reached past) ∧ Trail seen (e.reached past) rest e' := by
  induction rest using List.reverseRecOn generalizing e' with
  | nil =>
    rw [List.append_nil] at ht
    rw [ht.reached]
    exact ⟨ht, .nil⟩
  | append_singleton rest p ih =>
    rw [← List.append_assoc] at ht
    obtain ⟨e₁, ht₁, hd, rfl⟩ := ht.exists_of_concat
    exact ⟨(ih ht₁).1, (ih ht₁).2.snoc hd⟩

theorem Trail.before (ht : Trail seen e trail e') (hp : past <+: trail) :
    Trail seen e past (e.reached past) := by
  obtain ⟨rest, rfl⟩ := hp
  exact ht.split.1

/-- Each deed on a trail is done where the deeds before it lead to. -/
theorem Trail.did {d : Deed} (ht : Trail seen e trail e') (hp : past ++ [(d, e'')] <+: trail) :
    Did seen d (e.reached past) e'' := by
  obtain ⟨rest, rfl⟩ := hp
  obtain ⟨e₁, ht₁, hd, heq⟩ := ht.split.1.exists_of_concat
  rw [ht₁.reached]
  rwa [show e'' = _ from heq]

/-! ## Elementary actions -/

/-- A workflow goes on to a step, which is bound to it. -/
theorem follow_moves (w : WorkflowId) (s t : StepId) (o : Outcome) (e : Engine σ) :
    (follow w s t o).Ends e
      (fun _ e' => e'.Alike ((e.mapStep t (·.boundTo (e.workflow w))).mapWorkflow w (·.moved s t)) ∧
        e.clock.GoesOn e'.clock)
      (fun _ e' => e' = e) := by
  simp only [follow, ends_bind, ends_get, ends_failIf, ends_bindStep, ends_updateWorkflow, ends_note]
  split
  · trivial
  split
  · trivial
  · exact ⟨alike_aside _ _ _, refl _⟩

/-! ## What deeds change -/

section Alike

variable {f : Step → Step} (ha : e'.Alike (e.mapStep s f))
include ha

theorem step_of_alike (hs : e.HasStep s) : e'.step s = f (e.step s) := by
  rw [step_of_core ha.core, step_mapStep_self _ hs]

theorem step_of_alike_of_ne (ht : t ≠ s) : e'.step t = e.step t := by
  rw [step_of_core ha.core, step_mapStep_of_ne _ _ ht]

theorem turn_of_alike {d : Deed} (hs : e.HasStep s) (hd : ∀ u, u ≠ s → d ≠ .start u)
    (hself : Step.Turn e.clock.now s d (e.step s) (f (e.step s))) (t : StepId) :
    Step.Turn e.clock.now t d (e.step t) (e'.step t) := by
  by_cases hts : t = s
  · subst hts
    rwa [step_of_alike ha hs]
  · exact .rest (hd t hts) (congrArg Step.life (step_of_alike_of_ne ha hts))

theorem aside_mapStep (hf : e.HasStep s → (f (e.step s)).life = (e.step s).life)
    (hr : e'.clock.reading = e.clock.reading) : Aside seen e e' where
  size := (congrArg (·.steps.size) ha.core).trans (Array.size_modify ..)
  life t := by
    rw [step_of_core ha.core, step_mapStep]
    split
    · rename_i hts
      rw [hts.1]
      exact hf hts.2
    · rfl
  history v := congrArg Workflow.history (workflow_of_core ha.core v)
  previous v := congrArg Workflow.previous (workflow_of_core ha.core v)
  reading := hr
  seen := congrArg seen ha.host

end Alike

theorem aside_of_same (hs : e'.steps = e.steps) (hw : e'.workflows = e.workflows)
    (hr : e'.clock.reading = e.clock.reading) (hh : seen e'.host = seen e.host) : Aside seen e e' where
  size := congrArg Array.size hs
  life t := by rw [step_of_steps hs]
  history v := by rw [workflow_of_workflows hw]
  previous v := by rw [workflow_of_workflows hw]
  reading := hr
  seen := hh

theorem aside_mapWorkflow {f : Workflow → Workflow}
    (hh : (f (e.workflow w)).history = (e.workflow w).history)
    (hp : (f (e.workflow w)).previous = (e.workflow w).previous) : Aside seen e (e.mapWorkflow w f) where
  size := rfl
  life _ := rfl
  history := workflow_mapWorkflow_eq hh
  previous := workflow_mapWorkflow_eq hp
  reading := rfl
  seen := rfl

theorem life_moved (e : Engine σ) (w : WorkflowId) (s t u : StepId) :
    (((e.mapStep t (·.boundTo (e.workflow w))).mapWorkflow w (·.moved s t)).step u).life =
      (e.step u).life := by
  rw [step_mapWorkflow]
  exact step_mapStep_eq (g := Step.life) rfl u

/-- What a deed makes of a step. -/
theorem Did.turn {d : Deed} (hd : Did seen d e e') (t : StepId) :
    Step.Turn e.clock.now t d (e.step t) (e'.step t) := by
  cases hd with
  | start hs h =>
    obtain ⟨hst, hc, ha, -⟩ := (startStep_starts _ e).of_ok h
    exact turn_of_alike ha hs (fun u hu hd => hu (Deed.start.inj hd).symm) (.start hst hc rfl) t
  | answer hs h =>
    obtain ⟨hc, ha, -⟩ := (setOutcome_gives _ _ e).of_ok h
    exact turn_of_alike ha hs (fun _ _ => by nofun) (.answer hc rfl) t
  | give hs hb h =>
    obtain ⟨hc, ha, -⟩ := (setOutcome_gives _ _ e).of_ok h
    exact turn_of_alike ha hs (fun _ _ => by nofun) (.give hb hc rfl) t
  | reassign hs h =>
    obtain ⟨hc, ha, -⟩ := (reassign_gives _ _ e).of_ok h
    exact turn_of_alike ha hs (fun _ _ => by nofun) (.reassign hc rfl) t
  | remark hs h =>
    obtain rfl := (Prod.mk.inj h).2
    exact turn_of_alike (alike_refl _) hs (fun _ _ => by nofun) (.remark rfl) t
  | link hs h =>
    obtain rfl := (Prod.mk.inj h).2
    exact turn_of_alike (alike_refl _) hs (fun _ _ => by nofun) (.link rfl) t
  -- A new step is blank before, like all that the engine does not have.
  | @make s st _ _ hn h =>
    obtain ⟨hs, rfl⟩ := Prod.mk.inj h
    obtain rfl : e.nextStep = s := Except.ok.inj hs
    show Step.Turn _ t _ _ ((e.added st).step t)
    rw [step_added]
    split
    · rename_i ht
      rw [ht, step_of_not_hasStep fun hs => ne_nextStep hs rfl]
      exact .make rfl hn
    · exact .rest nofun rfl
  | leave _ h =>
    obtain rfl := (Prod.mk.inj h).2
    exact .rest nofun rfl
  | go hc ho h =>
    obtain ⟨ha, -⟩ := (follow_moves _ _ _ _ e).of_ok h
    exact .rest nofun ((congrArg Step.life (step_of_core ha.core t)).trans (life_moved e _ _ _ t))
  | look h => exact .rest nofun (congrArg Step.life (step_of_core h.core t))
  | other h => exact .rest nofun (h.life t)

/-- What a deed leaves alone beside the lives of steps: a workflow leaves a step and goes on by deeds of
their own, and so are looks taken. -/
structure Framed (seen : σ → List Core) (d : Deed) (e e' : Engine σ) : Prop where
  hasStep : ∀ t, e'.HasStep t ↔ e.HasStep t ∨ d = .make t
  history : ∀ w, (e'.workflow w).history = (e.workflow w).history ∨
    ∃ s, d = .leave w s ∧ (e'.workflow w).history = (e.workflow w).history ++ [s]
  previous : ∀ w, (e'.workflow w).previous = (e.workflow w).previous ∨
    ∃ s, d = .go w s ∧ (e'.workflow w).previous = some s
  reading : e'.clock.reading = e.clock.reading
  seen : seen e'.host = seen e.host ++ looks [(d, e')]

theorem framed_of_alike {d : Deed} {f : Step → Step} (ha : e'.Alike (e.mapStep s f))
    (hr : e'.clock.reading = e.clock.reading) (hd : d ≠ .look) (hm : ∀ t, d ≠ .make t) :
    Framed seen d e e' where
  hasStep t := by
    rw [hasStep_of_core ha.core, hasStep_mapStep, or_iff_left (hm t)]
  history v := .inl (congrArg Workflow.history (workflow_of_core ha.core v))
  previous v := .inl (congrArg Workflow.previous (workflow_of_core ha.core v))
  reading := hr
  seen := by
    have hlooks : looks [(d, e')] = [] := List.filterMap_cons_none (if_neg hd)
    rw [hlooks, List.append_nil]
    exact congrArg seen ha.host

theorem framed_left (w : WorkflowId) (s : StepId) (e : Engine σ) :
    Framed seen (.leave w s) e (e.mapWorkflow w (·.left s)) where
  hasStep _ := (or_iff_left nofun).symm
  history v := by
    rw [workflow_mapWorkflow]
    split
    · rename_i hv
      exact .inr ⟨s, by rw [hv.1], by rw [hv.1]; rfl⟩
    · exact .inl rfl
  previous v := .inl (workflow_mapWorkflow_eq rfl v)
  reading := rfl
  seen := (List.append_nil _).symm

theorem framed_moved {f : Step → Step} (ha : e'.Alike ((e.mapStep t f).mapWorkflow w (·.moved s t)))
    (hr : e'.clock.reading = e.clock.reading) : Framed seen (.go w s) e e' where
  hasStep u := by
    rw [hasStep_of_core ha.core, or_iff_left nofun]
    exact hasStep_mapStep e t u _
  history v := .inl (by
    rw [workflow_of_core ha.core]
    exact workflow_mapWorkflow_eq rfl v)
  previous v := by
    rw [workflow_of_core ha.core, workflow_mapWorkflow]
    split
    · rename_i hv
      exact .inr ⟨s, by rw [hv.1], rfl⟩
    · exact .inl rfl
  reading := hr
  seen := (congrArg seen ha.host).trans (List.append_nil _).symm

theorem Did.framed {d : Deed} (hd : Did seen d e e') : Framed seen d e e' := by
  cases hd with
  | start hs h =>
    obtain ⟨-, -, ha, hr⟩ := (startStep_starts _ e).of_ok h
    exact framed_of_alike ha hr.reading nofun nofun
  | answer hs h | give hs _ h =>
    obtain ⟨-, ha, hr⟩ := (setOutcome_gives _ _ e).of_ok h
    exact framed_of_alike ha hr.reading nofun nofun
  | reassign hs h =>
    obtain ⟨-, ha, hr⟩ := (reassign_gives _ _ e).of_ok h
    exact framed_of_alike ha hr.reading nofun nofun
  | remark hs h | link hs h =>
    obtain rfl := (Prod.mk.inj h).2
    exact framed_of_alike (alike_refl _) rfl nofun nofun
  | @make s st _ _ hn h =>
    obtain ⟨hs, rfl⟩ := Prod.mk.inj h
    obtain rfl : e.nextStep = s := Except.ok.inj hs
    refine ⟨fun t => (hasStep_added e st t).trans (or_congr_right ?_), fun _ => .inl rfl, fun _ => .inl rfl,
      rfl, (List.append_nil _).symm⟩
    exact ⟨fun ht => ht ▸ rfl, fun hd => (Deed.make.inj hd).symm⟩
  | leave hc h =>
    obtain rfl := (Prod.mk.inj h).2
    exact framed_left _ _ e
  | go hc ho h =>
    obtain ⟨ha, hr⟩ := (follow_moves _ _ _ _ e).of_ok h
    exact framed_moved ha hr.reading
  | look h =>
    refine ⟨fun t => ?_, fun v => .inl ?_, fun v => .inl ?_, h.reading, ?_⟩
    · rw [hasStep_of_core h.core, or_iff_left nofun]
    · rw [workflow_of_core h.core]
    · rw [workflow_of_core h.core]
    · rw [h.seen, ← h.core]
      rfl
  | other h =>
    refine ⟨fun t => ?_, fun v => .inl (h.history v), fun v => .inl (h.previous v), h.reading,
      h.seen.trans (List.append_nil _).symm⟩
    rw [hasStep_of_size h.size, or_iff_left nofun]

/-- What was seen are the looks that were taken. -/
theorem Trail.seen_eq (ht : Trail seen e trail e') :
    seen e'.host = seen e.host ++ looks trail := by
  induction ht with
  | nil => exact (List.append_nil _).symm
  | snoc _ hd ih =>
    rw [hd.framed.seen, ih, List.append_assoc]
    congr 1
    exact (List.filterMap_append ..).symm

theorem Trail.hasStep (ht : Trail seen e trail e') (hs : e.HasStep s) : e'.HasStep s := by
  induction ht with
  | nil => exact hs
  | snoc _ hd ih => exact (hd.framed.hasStep s).mpr (.inl ih)

/-- A step that was not there has been made. -/
theorem Trail.made (ht : Trail seen e trail e') (hs : ¬e.HasStep s) (hs' : e'.HasStep s) :
    .make s ∈ deeds trail := by
  induction ht with
  | nil => exact absurd hs' hs
  | snoc _ hd ih =>
    rw [mem_deeds_concat]
    exact ((hd.framed.hasStep s).mp hs').imp ih Eq.symm

/-- A step that has been made was not there before. -/
theorem Trail.not_hasStep (ht : Trail seen e trail e') (hm : .make s ∈ deeds trail) : ¬e.HasStep s := by
  intro hs
  induction ht with
  | nil => exact absurd hm List.not_mem_nil
  | snoc ht hd ih =>
    rcases mem_deeds_concat.mp hm with hm | rfl
    · exact ih hm
    · cases hd with
      | make _ h =>
        obtain rfl := Except.ok.inj (Prod.mk.inj h).1
        exact ne_nextStep (ht.hasStep hs) rfl

/-- What has begun has begun for good. -/
theorem Treads.begun (ht : Treads seen may e e') (hb : (e.step s).Begun) : (e'.step s).Begun := by
  obtain ⟨_, ht, -⟩ := ht
  induction ht with
  | nil => exact hb
  | snoc _ hd ih => exact (hd.turn s).begun ih

end Engine

end ApprovalFlow
