/-!
# Times of day and offsets

A time of day to the microsecond, and the distance of a zone from universal time. Both are bounded by their types: no
hour 24, and no zone a whole day or more away.
-/

namespace Winnow

/-- The number of microseconds of a day. -/
def microsPerDay : Nat := 86400000000

/-- A time of day. -/
structure TimeOfDay where
  hour : Nat
  minute : Nat
  second : Nat
  micro : Nat
  hour_lt : hour < 24 := by decide
  minute_lt : minute < 60 := by decide
  second_lt : second < 60 := by decide
  micro_lt : micro < 1000000 := by decide
  deriving DecidableEq

namespace TimeOfDay

/-- The first instant of a day. -/
def midnight : TimeOfDay :=
  { hour := 0, minute := 0, second := 0, micro := 0 }

/-- The time with a given hour, minute, second and microsecond, if there is one. -/
def of? (hour minute second micro : Nat) : Option TimeOfDay :=
  if h : hour < 24 ∧ minute < 60 ∧ second < 60 ∧ micro < 1000000 then
    some ⟨hour, minute, second, micro, h.1, h.2.1, h.2.2.1, h.2.2.2⟩
  else none

theorem of?_eq_some (t : TimeOfDay) : of? t.hour t.minute t.second t.micro = some t := by
  simp [of?, t.hour_lt, t.minute_lt, t.second_lt, t.micro_lt]

/-- The microseconds since midnight. -/
def micros (t : TimeOfDay) : Nat :=
  ((t.hour * 60 + t.minute) * 60 + t.second) * 1000000 + t.micro

/-- The time a number of microseconds after midnight, whole days being left out. -/
def ofMicros (n : Nat) : TimeOfDay where
  hour := n / 3600000000 % 24
  minute := n / 60000000 % 60
  second := n / 1000000 % 60
  micro := n % 1000000
  hour_lt := Nat.mod_lt _ (by decide)
  minute_lt := Nat.mod_lt _ (by decide)
  second_lt := Nat.mod_lt _ (by decide)
  micro_lt := Nat.mod_lt _ (by decide)

theorem micros_lt (t : TimeOfDay) : t.micros < microsPerDay := by
  have := t.hour_lt
  have := t.minute_lt
  have := t.second_lt
  have := t.micro_lt
  simp only [micros, microsPerDay]
  omega

theorem micros_ofMicros {n : Nat} (h : n < microsPerDay) : (ofMicros n).micros = n := by
  simp only [microsPerDay] at h
  simp only [micros, ofMicros]
  omega

end TimeOfDay

/-- The distance of a zone from universal time in microseconds, east positive, less than a day. -/
structure Offset where
  micros : Int
  micros_range : -86400000000 < micros ∧ micros < 86400000000 := by decide
  deriving DecidableEq

namespace Offset

/-- Universal time itself. -/
def utc : Offset :=
  { micros := 0 }

/-- The zone at a given distance, if it is less than a day away. -/
def of? (micros : Int) : Option Offset :=
  if h : -86400000000 < micros ∧ micros < 86400000000 then some ⟨micros, h⟩ else none

theorem of?_eq_some (o : Offset) : of? o.micros = some o := by
  simp [of?, o.micros_range]

end Offset

/-- A time of day on its own, in a zone or in none. -/
structure ClockTime where
  time : TimeOfDay
  offset? : Option Offset
  deriving DecidableEq

namespace ClockTime

/-- The microseconds since midnight on the clock of universal time, the offset being cut down to whole seconds. -/
def universalMicros (t : ClockTime) : Int :=
  t.time.micros - (t.offset?.elim 0 Offset.micros) / 1000000 * 1000000

/-- The order of two times, `none` between a time in a zone and one in none. Within one zone the clocks are compared. -/
def order? (t u : ClockTime) : Option Ordering :=
  match t.offset?, u.offset? with
  | none, none => some (compare t.time.micros u.time.micros)
  | some o, some p =>
    some (if o = p then compare t.time.micros u.time.micros else compare t.universalMicros u.universalMicros)
  | _, _ => none

end ClockTime

end Winnow
