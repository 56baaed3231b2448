import ApprovalFlow.Logging.Record

/-!
# Loggers

Loggers form a tree by the dots in their names. Above a logger stands the nearest one that there is of those
whose names its own name can be cut to from its end: it is cut before each dot, but a dot right before one at
which it was cut is passed over, and a name is not cut to nothing. So `a..b` stands below `a.` and never
right below `a`.
-/

namespace ApprovalFlow.Logging

/-- The name of the logger above all of the engine's. -/
def engineLogger : String := "step_workflow"

/-- What is left of a name where it is cut; it is given from its end, and so are the rests. -/
def cuts : List Char → List (List Char)
  | '.' :: c :: rest => (c :: rest) :: cuts rest
  | _ :: rest => cuts rest
  | [] => []

/-- The loggers that may stand above one, the nearest first. -/
def candidates (logger : String) : List String :=
  (cuts logger.toList.reverse).map fun cs => String.ofList cs.reverse

/-- The logger above one, where there are the engine's and those in `names`. Where there is none, it is the
root. -/
def parent? (names : List String) (logger : String) : Option String :=
  (candidates logger).find? fun name => name == engineLogger || names.contains name

/-- Whether a logger is the engine's or below it. Each logger has a shorter name than those below it, so that
the length of a name is fuel enough. -/
def isEngineIn (names : List String) : Nat → String → Bool
  | 0, logger => logger == engineLogger
  | fuel + 1, logger => logger == engineLogger || (parent? names logger).any (isEngineIn names fuel)

def isEngine (names : List String) (logger : String) : Bool := isEngineIn names logger.length logger

/-- The root can be asked for without a name and under one. -/
def isRoot (logger : String) : Bool := logger == "" || logger == "root"

def shownName (logger : String) : String := if isRoot logger then "root" else logger

def withLogger (names : List String) (logger : String) : List String :=
  if isRoot logger || logger == engineLogger || names.contains logger then names else names ++ [logger]

example : isEngine [] "step_workflow..x" = false ∧ isEngine ["step_workflow."] "step_workflow..x" = true := by
  decide +kernel

end ApprovalFlow.Logging
