import ApprovalFlow.Engine

/-!
# The graph of steps

The steps that can be reached from one along successors, nearest first. Steps at the same distance come
in the order of their earliest predecessor, and under one predecessor in the order of its outcomes.
-/

namespace ApprovalFlow.Engine

variable {σ : Type}

/-- The steps that directly follow a step, in the order of its outcomes. -/
def targets (e : Engine σ) (s : StepId) : List StepId :=
  (e.step s).successors.filterMap (·.target)

/-- Adds those of `found` that have not been seen to the seen ones and to the ones to visit. -/
def discover : List StepId → List StepId × List StepId → List StepId × List StepId
  | [], acc => acc
  | t :: found, (seen, toVisit) =>
    if seen.contains t then discover found (seen, toVisit)
    else discover found (seen ++ [t], toVisit ++ [t])

/-- Visits steps in turn, the first to be seen first. -/
def explore (e : Engine σ) : Nat → List StepId → List StepId → List StepId
  | 0, seen, _ => seen
  | _ + 1, seen, [] => seen
  | fuel + 1, seen, s :: toVisit =>
    let (seen, toVisit) := discover (e.targets s) (seen, toVisit)
    explore e fuel seen toVisit

def edgeEnds (e : Engine σ) : List StepId :=
  e.steps.toList.flatMap fun s => s.successors.filterMap (·.target)

/-- The steps that can be reached from a step, the step itself first. Each is visited once, and every
one but the first is the end of an edge, so there are no more visits than edges and one. -/
def reachable (e : Engine σ) (first : StepId) : List StepId :=
  explore e (e.edgeEnds.length + 2) [first] [first]

end ApprovalFlow.Engine
