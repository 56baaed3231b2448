import ApprovalFlow.Step
import Mathlib.Data.List.Basic
import Mathlib.Data.List.Induction

/-!
# What a step shows of its registrations

The successors of a step are what its registrations come to, one after another. An outcome is offered once,
at the place and as the instance that was first registered under its key; what follows it is what was last
registered under its key, maybe with another instance (`Step.shows_of_registered`).
-/

namespace ApprovalFlow

/-! ## One outcome of each key -/

namespace Outcome

variable {o p : Outcome} {os : List Outcome}

theorem same_comm (o p : Outcome) : o.same p = p.same o :=
  Bool.eq_iff_iff.mpr ⟨fun h => same_iff.mpr (same_iff.mp h).symm, fun h => same_iff.mpr (same_iff.mp h).symm⟩

theorem same_of_same (h : o.same p = true) (q : Outcome) : o.same q = p.same q := by
  unfold same
  rw [same_iff.mp h]

def firsts : List Outcome → List Outcome
  | [] => []
  | o :: os => o :: (firsts os).filter fun p => !p.same o

/-- Keys are neither lost nor added. -/
theorem any_firsts (os : List Outcome) (o : Outcome) : (firsts os).any (·.same o) = os.any (·.same o) := by
  induction os with
  | nil => rfl
  | cons p os ih =>
    rw [firsts, List.any_cons, List.any_cons, List.any_filter, ← ih]
    cases hp : p.same o
    case true => rfl
    case false =>
      -- What is left out for the sake of `p` has the key of `p`.
      have hkept : (fun q : Outcome => !q.same p && q.same o) = (·.same o) := by
        funext q
        cases hq : q.same o
        case false => exact Bool.and_false _
        case true => rw [same_of_same hq, same_comm, hp]; rfl
      rw [hkept]

/-- Another outcome counts only if it is the first of its key. -/
theorem firsts_concat (os : List Outcome) (o : Outcome) :
    firsts (os ++ [o]) = if os.any (·.same o) then firsts os else firsts os ++ [o] := by
  induction os with
  | nil => rfl
  | cons p os ih =>
    rw [List.cons_append, firsts, ih, List.any_cons, firsts]
    cases ho : os.any (·.same o)
    case true => rw [Bool.or_true, if_pos rfl, if_pos rfl]
    case false =>
      rw [Bool.or_false, if_neg Bool.false_ne_true, List.filter_append, List.filter_singleton, same_comm o p]
      cases p.same o
      case true => exact congrArg (p :: ·) (List.append_nil _)
      case false => rfl

end Outcome

/-! ## Registering one after another -/

namespace Successor

def registerAll (regs : List Successor) (l : List Successor) : List Successor :=
  regs.foldl (fun l r => register r.outcome r.target l) l

theorem registerAll_append (regs regs' l : List Successor) :
    registerAll (regs ++ regs') l = registerAll regs' (registerAll regs l) := List.foldl_append

theorem outcomes_register (o : Outcome) (target : Option StepId) (l : List Successor) :
    (register o target l).map (·.outcome) =
      if (l.map (·.outcome)).any (·.same o) then l.map (·.outcome) else l.map (·.outcome) ++ [o] := by
  induction l with
  | nil => rfl
  | cons x l ih =>
    rw [register, List.map_cons, List.any_cons]
    cases x.outcome.same o
    case true => rfl
    case false =>
      rw [if_neg Bool.false_ne_true, List.map_cons, ih, Bool.false_or]
      split <;> rfl

/-- Outcomes are kept in the order of their first registration, and as first registered. -/
theorem outcomes_registerAll (regs : List Successor) :
    (registerAll regs []).map (·.outcome) = Outcome.firsts (regs.map (·.outcome)) := by
  induction regs using List.reverseRecOn with
  | nil => rfl
  | append_singleton regs r ih =>
    rw [registerAll_append, List.map_append, List.map_singleton, Outcome.firsts_concat, ← Outcome.any_firsts,
      ← ih]
    exact outcomes_register ..

/-- What follows an outcome is what was registered last under its key. -/
theorem find?_registerAll (regs : List Successor) (o : Outcome) :
    (find? o (registerAll regs [])).map (·.target) =
      (regs.reverse.find? (·.outcome.same o)).map (·.target) := by
  induction regs using List.reverseRecOn with
  | nil => rfl
  | append_singleton regs r ih =>
    rw [registerAll_append, List.reverse_append, List.reverse_singleton, List.singleton_append, List.find?_cons]
    refine (find?_register ..).trans ?_
    cases r.outcome.same o
    case true => rfl
    case false => exact ih

end Successor

namespace Step

/-- The step shows the registrations: the outcomes, each once, in the order of their first registration and as
first registered; after each what was registered for it last; and it permits those and to go on or to abort. -/
structure Shows (st : Step) (regs : List Successor) : Prop where
  available : st.available = Outcome.firsts (regs.map (·.outcome))
  next : ∀ o, st.next? o = (regs.reverse.find? (·.outcome.same o)).bind (·.target)
  permits : ∀ o, st.permits o = true ↔
    (∃ r ∈ regs, r.outcome.key = o.key) ∨ o.key = Outcome.proceed.key ∨ o.key = Outcome.abort.key

variable {st : Step} {regs : List Successor}

/-- A step shows the registrations that its successors come from. -/
theorem shows_of_registered (h : st.successors = Successor.registerAll regs []) : st.Shows regs where
  available := by
    unfold available
    rw [h]
    exact Successor.outcomes_registerAll regs
  next o := by
    have hfind := congrArg (·.bind id) (Successor.find?_registerAll regs o)
    simp only [Option.bind_map, Function.id_comp] at hfind
    unfold next?
    rw [h]
    exact hfind
  permits o := by
    have hfind := congrArg Option.isSome (Successor.find?_registerAll regs o)
    rw [Option.isSome_map, Option.isSome_map, ← h] at hfind
    unfold permits offers
    rw [hfind, Bool.or_eq_true, Bool.or_eq_true, List.find?_isSome, or_assoc]
    simp only [List.mem_reverse, Outcome.same_iff]

/-- The outcome that is shown and the step that follows it may stem from different registrations. -/
example :
    let st := ((withSuccessor default .deny (some ⟨0⟩)).withSuccessor .approve none).withSuccessor
      { Outcome.deny with ok := false } (some ⟨1⟩)
    st.available = [.deny, .approve] ∧ st.next? .deny = some ⟨1⟩ := by decide

/-! ## Steps as they are made -/

def endings (outcomes : List Outcome) : List Successor := outcomes.map (⟨·, none⟩)

theorem successors_withOutcomes (st : Step) (outcomes : List Outcome) :
    (st.withOutcomes outcomes).successors = Successor.registerAll (endings outcomes) st.successors := by
  unfold withOutcomes
  induction outcomes generalizing st with
  | nil => rfl
  | cons o outcomes ih => exact ih _

theorem successors_task (kind key : String) (actor : Option Actor) :
    (task kind key actor).successors = Successor.registerAll (endings [.complete]) [] :=
  successors_withOutcomes _ _

def choices (outcomes : List Outcome) (reassignable : Bool) : List Outcome :=
  outcomes ++ if reassignable then [.reassign] else []

theorem successors_ofDecision (kind key : String) (actor : Option Actor) (number : Nat)
    (outcomes : List Outcome) (reassignable : Bool) :
    (ofDecision kind key actor number outcomes reassignable).successors =
      Successor.registerAll (endings (choices outcomes reassignable)) [] := successors_withOutcomes _ _

theorem successors_notification (kind key : String) (actor : Option Actor) (number : Nat) :
    (notification kind key actor number).successors =
      Successor.registerAll (endings [.acknowledge]) [] := rfl

end Step

end ApprovalFlow
