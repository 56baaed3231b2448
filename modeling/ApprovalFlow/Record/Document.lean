import ApprovalFlow.Record

/-!
# Records as documents

A record as a document of plain values: nothing but null, truth values, numbers, texts, lists and objects.
Points in time become stamps, the engine's kinds of thing objects with their fields, and numbers that are
not finite null. A thing of which nothing is known cannot be written, nor can values that are too deeply
inside each other.
-/

namespace ApprovalFlow

open Value

namespace Value

def stampText (t : Instant) : String := t.stamp 'T' ++ "Z"

/-- How many values may be inside each other, the innermost one and the outermost one included. -/
def maxNesting : Nat := 255

def plainPart (room : Nat) (v : Value) : Except Failure Value :=
  if room = 0 then .error .valueTooDeep else .ok v

mutual

/-- The plain value that stands for a value, with no more than `room` values inside each other. A state
takes the room of two: its own and that of its name. -/
def plainWithin : Nat → Value → Except Failure Value
  | 0, _ => .error .valueTooDeep
  | _ + 1, null => .ok null
  | _ + 1, bool b => .ok (bool b)
  | _ + 1, int n => .ok (int n)
  | _ + 1, float .nan => .ok null
  | _ + 1, float (.infinity _) => .ok null
  | _ + 1, float x => .ok (float x)
  | _ + 1, text s => .ok (text s)
  | room + 1, list items => list <$> plainItems room items
  | room + 1, tuple items => list <$> plainItems room items
  | room + 1, object fields => object <$> plainFields room fields
  | _ + 1, moment t true => .ok (text (stampText t))
  | _ + 1, moment t false => .ok (text (t.stamp 'T'))
  | room + 1, actor a => do return object [("name", ← plainPart room (text a.name))]
  | room + 1, outcome o => do
    return object [("key", ← plainPart room (text o.key)), ("message_key", text o.messageKey),
      ("completion", bool o.completion), ("ok", bool o.ok)]
  | room + 1, fact key value => do
    return object [("message_key", ← plainPart room (text key)), ("value", ← plainWithin room value)]
  | room + 1, state w => plainPart room (text w.name)
  | _ + 1, thing => .error .unwritableValue

def plainItems (room : Nat) : List Value → Except Failure (List Value)
  | [] => .ok []
  | v :: rest => do return (← plainWithin room v) :: (← plainItems room rest)

def plainFields (room : Nat) : List (String × Value) → Except Failure (List (String × Value))
  | [] => .ok []
  | (name, v) :: rest => do return (name, ← plainWithin room v) :: (← plainFields room rest)

end

def plain (v : Value) : Except Failure Value := plainWithin maxNesting v

def ofOption {α : Type} (f : α → Value) : Option α → Value
  | some a => f a
  | none => null

def place (n : Nat) : Value := int n

end Value

def Fact.document (f : Fact) : Except Failure Value := do
  return object [("message_key", text f.key), ("value", ← f.value.plain)]

def StepRecord.document (r : StepRecord) : Except Failure Value := do
  let facts ← r.facts.mapM Fact.document
  return object [
    ("kind", text r.kind),
    ("message_key", text r.key),
    ("actor", ofOption text r.actor),
    ("state", text r.state.name),
    ("outcome", text r.outcome),
    ("start_time", text (stampText r.startTime)),
    ("end_time", text (stampText r.endTime)),
    ("errors", list (r.errors.map text)),
    ("available_outcomes", list (r.available.map text)),
    ("successors", object (r.next.map fun (key, n) => (key, ofOption place n))),
    ("decision_id", ofOption place r.number),
    ("facts", list facts)]

def WorkflowRecord.document (r : WorkflowRecord) : Except Failure Value := do
  let steps ← r.steps.mapM StepRecord.document
  let context ← plainFields maxNesting r.context
  let arguments ← plainItems maxNesting r.arguments
  return object [
    ("id", int r.id),
    ("message_key", text r.key),
    ("owner", ofOption text r.owner),
    ("state", text r.state.name),
    ("start_time", text (stampText r.startTime)),
    ("end_time", text (stampText r.endTime)),
    ("first_step", ofOption place r.first),
    ("current_step", ofOption place r.current),
    ("previous_step", ofOption place r.previous),
    ("history", list (r.history.map place)),
    ("steps", list steps),
    ("context", object context),
    ("message_arguments", list arguments)]

end ApprovalFlow
