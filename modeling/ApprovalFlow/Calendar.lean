import ApprovalFlow.Text.Digits

/-!
# Calendar

Instants are counted in microseconds from the start of 1970, in universal time. This module splits
them into the fields of the Gregorian calendar and writes them as stamps: a date, a separator and a
time of day with six digits of fraction, which are left out when they are all zero.
-/

namespace ApprovalFlow

/-- Microseconds since the start of 1970 in universal time. -/
abbrev Instant := Int

namespace Instant

/-- The instant that stands for "not set": the start of 1970. -/
def unset : Instant := 0

def day (t : Instant) : Int := t.fdiv 86400000000

def microsOfDay (t : Instant) : Nat := (t.fmod 86400000000).toNat

/-- What is said of a number of microseconds that lies outside the years from 1 to 9999. Days are counted
in 32 bits, with nine digits at most; times beyond those counts are spoken of first. -/
def complaint? (t : Instant) : Option String :=
  if t.day < -2147483648 ∨ 2147483647 < t.day then some "Python int too large to convert to C int"
  else if t.day < -999999999 ∨ 999999999 < t.day then
    some s!"days={t.day}; must have magnitude <= 999999999"
  else if t.day < -719162 ∨ 2932896 < t.day then some "date value out of range"
  else none

/-- Year, month and day of the Gregorian calendar. Years are counted from the first of March, so that
the leap day ends a year, and in cycles of 400 years, all of 146097 days. -/
def civil (day : Int) : Int × Nat × Nat :=
  let shifted := day + 719468
  let cycle := shifted.fdiv 146097
  let dayOfCycle := (shifted.fmod 146097).toNat
  let yearOfCycle :=
    (dayOfCycle - dayOfCycle / 1460 + dayOfCycle / 36524 - dayOfCycle / 146096) / 365
  let dayOfYear := dayOfCycle - (365 * yearOfCycle + yearOfCycle / 4 - yearOfCycle / 100)
  let monthIndex := (5 * dayOfYear + 2) / 153
  let dayOfMonth := dayOfYear - (153 * monthIndex + 2) / 5 + 1
  let month := if monthIndex < 10 then monthIndex + 3 else monthIndex - 9
  let year := (yearOfCycle : Int) + cycle * 400
  (if month ≤ 2 then year + 1 else year, month, dayOfMonth)

def stamp (separator : Char) (t : Instant) : String :=
  let (year, month, dayOfMonth) := civil t.day
  let micros := t.microsOfDay
  let seconds := micros / 1000000
  let fraction := micros % 1000000
  let text :=
    Text.decimal 4 year.toNat ++ '-' :: Text.decimal 2 month ++ '-' :: Text.decimal 2 dayOfMonth ++
    separator :: Text.decimal 2 (seconds / 3600) ++ ':' :: Text.decimal 2 (seconds / 60 % 60) ++
    ':' :: Text.decimal 2 (seconds % 60) ++
    (if fraction = 0 then [] else '.' :: Text.decimal 6 fraction)
  String.ofList text

example : civil 0 = (1970, 1, 1) := by decide
example : civil 11016 = (2000, 2, 29) := by decide
example : civil (-719468) = (0, 3, 1) := by decide

end Instant

end ApprovalFlow
