import Winnow.Temporal

/-!
# Relative dates

A relative date is a whole number of days before now, in universal time and at day granularity: it stands for a whole
day, from its first instant, its floor, to its last millisecond, its ceiling.

How a relative date is read from data is left open: a reader of relative dates tells the number of days of an object, or
what is wrong with it.
-/

namespace Winnow

/-- A clock: the value that it shows, and the instant that it is by the system, which counts when that value stands for
none. -/
structure Clock where
  shown : Value := .null
  system : Instant

/-- The instant that it is by a clock. -/
def Clock.now (c : Clock) : Except Fault Instant := do
  return (← c.shown.toInstant).getD c.system

namespace RelativeDate

/-- A reader of relative dates: the number of days that an object stands for, or what is wrong with the object. -/
abbrev Reader := List (String × Value) → Except String Nat

/-- A reader reads every relative date from the object that it is written as. -/
def Reader.ReadsWritten (read : Reader) : Prop :=
  ∀ days : Nat, read [("daysAgo", .int days)] = .ok days

/-- The first instant of the day a number of days before now. -/
def floor (clock : Clock) (days : Nat) : Except Fault Instant := do
  let current ← clock.now
  if Nat.pow 2 31 ≤ days then throw .daysTooLarge
  if 999999999 < days then throw (.daysBeyondRange days)
  match current.dayStart? days with
  | some start => return start
  | none => throw .outOfCalendar

/-- The last millisecond of the day a number of days before now. -/
def ceil (clock : Clock) (days : Nat) : Except Fault Instant := do
  match (← floor clock days).lastMilli? with
  | some last => return last
  | none => throw .outOfCalendar

/-- The bound that a value stands for under a range operator: a relative date is rounded up by those that exclude the
whole day before it or include it to its end, and down by the others. -/
def resolve (clock : Clock) (bound : Bound) : Value → Except Fault Value
  | .daysAgo days => match bound with
    | .gt | .lte => (ceil clock days).map Value.ofInstant
    | .gte | .lt => (floor clock days).map Value.ofInstant
  | v => .ok v

/-- A relative date as search engines write it, the day being rounded by the engine; `none` when the number of days has
no text. -/
def dateMath (days : Nat) : Option String :=
  (writeInt? days).map fun shown => "now-" ++ shown ++ "d/d"

end RelativeDate

end Winnow
