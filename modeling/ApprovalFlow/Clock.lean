import ApprovalFlow.Calendar

/-!
# Clocks

A clock is the sequence of its readings and how many of them have been taken. What the readings are is
left open: they may repeat, go backwards, or be the instant that stands for "not set".
-/

namespace ApprovalFlow

/-- A sequence of readings, of which `taken` have been taken. -/
structure Clock where
  reading : Nat → Instant
  taken : Nat := 0

namespace Clock

def counter (start tick : Int) : Clock := ⟨fun n => start + n * tick, 0⟩

instance : Inhabited Clock := ⟨counter 1000000 1000000⟩

def now (c : Clock) : Instant := c.reading c.taken

def tick (c : Clock) : Clock := { c with taken := c.taken + 1 }

end Clock

end ApprovalFlow
