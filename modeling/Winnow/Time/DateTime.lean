import Winnow.Time.Calendar
import Winnow.Time.Clock

/-!
# Dates with a time, and instants

A date with a time of day is naive without an offset and aware with one. An instant is a point of universal time, the
microseconds since the beginning of year 1; naive dates and times are taken as universal time. Every comparison of dates
is a comparison of instants.
-/

namespace Winnow

/-- A date with a time of day, in a zone or in none. -/
structure DateTime where
  date : Date
  time : TimeOfDay
  offset? : Option Offset
  deriving DecidableEq

/-- A point of universal time within the years 1 to 9999, in microseconds since the beginning of year 1. -/
structure Instant where
  micros : Nat
  micros_lt : micros < 3652059 * 86400000000 := by decide
  deriving DecidableEq

namespace Instant

/-- The instant a number of microseconds after the beginning of year 1, if it is within the calendar. -/
def of? (micros : Int) : Option Instant :=
  if h : 0 ≤ micros ∧ micros.toNat < 3652059 * 86400000000 then some ⟨micros.toNat, h.2⟩ else none

/-- The number of the day of an instant, counted from zero. -/
def day (i : Instant) : Nat :=
  i.micros / microsPerDay

/-- The instant a number of microseconds later, or earlier for a negative one. -/
def shift? (i : Instant) (micros : Int) : Option Instant :=
  of? (i.micros + micros)

/-- The first instant of the day some days before, `none` when it is before year 1. -/
def dayStart? (i : Instant) (daysBefore : Nat) : Option Instant :=
  if daysBefore ≤ i.day then of? ((i.day - daysBefore) * microsPerDay) else none

/-- The first instant after the day that begins with this one less a millisecond, `none` on the last day of the
calendar. -/
def lastMilli? (i : Instant) : Option Instant :=
  (i.shift? microsPerDay).bind fun next => next.shift? (-1000)

end Instant

namespace Date

/-- Midnight of a date in universal time, as microseconds since the beginning of year 1. -/
def micros (d : Date) : Nat :=
  (d.ordinal - 1) * microsPerDay

end Date

namespace DateTime

/-- The microseconds since the beginning of year 1 on the clock of the zone. -/
def localMicros (t : DateTime) : Nat :=
  t.date.micros + t.time.micros

/-- The microseconds of universal time since the beginning of year 1, negative where an offset leads before it. -/
def universalMicros (t : DateTime) : Int :=
  t.localMicros - (t.offset?.elim 0 Offset.micros)

/-- The instant of a date and time, `none` when the offset leads out of the calendar. -/
def toInstant? (t : DateTime) : Option Instant :=
  Instant.of? t.universalMicros

/-- The order of two dates with time, `none` between a naive and an aware one. -/
def order? (t u : DateTime) : Option Ordering :=
  if t.offset?.isSome = u.offset?.isSome then some (compare t.universalMicros u.universalMicros) else none

/-- Midnight of a date in universal time. -/
def ofDate (d : Date) : DateTime :=
  ⟨d, .midnight, some .utc⟩

/-- An instant as date and time in universal time. -/
def ofInstant (i : Instant) : DateTime :=
  ⟨.afterFirst i.day, .ofMicros (i.micros % microsPerDay), some .utc⟩

end DateTime

end Winnow
