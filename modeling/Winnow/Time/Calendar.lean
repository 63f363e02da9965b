/-!
# The calendar

Dates of the Gregorian calendar from year 1 to year 9999, extended before its adoption, and their ordinals: the first of
January of year 1 is day 1. A date that does not exist cannot be built.
-/

namespace Winnow

/-- Whether a year has a 29th of February. -/
def isLeapYear (year : Nat) : Bool :=
  year % 4 == 0 && (year % 100 != 0 || year % 400 == 0)

/-- The number of days of a month, zero for a month that does not exist. -/
def daysInMonth (year : Nat) : Nat → Nat
  | 1 | 3 | 5 | 7 | 8 | 10 | 12 => 31
  | 4 | 6 | 9 | 11 => 30
  | 2 => if isLeapYear year then 29 else 28
  | _ => 0

/-- A date of the years 1 to 9999. -/
structure Date where
  year : Nat
  month : Nat
  day : Nat
  year_range : 1 ≤ year ∧ year ≤ 9999 := by decide
  month_range : 1 ≤ month ∧ month ≤ 12 := by decide
  day_range : 1 ≤ day ∧ day ≤ daysInMonth year month := by decide
  deriving DecidableEq

namespace Date

/-- The date with a given year, month and day, if there is one. -/
def of? (year month day : Nat) : Option Date :=
  if h : (1 ≤ year ∧ year ≤ 9999) ∧ (1 ≤ month ∧ month ≤ 12) ∧ (1 ≤ day ∧ day ≤ daysInMonth year month) then
    some ⟨year, month, day, h.1, h.2.1, h.2.2⟩
  else none

theorem of?_eq_some (d : Date) : of? d.year d.month d.day = some d := by
  simp [of?, d.year_range, d.month_range, d.day_range]

/-- The number of days before the first of January of a year. -/
def daysBeforeYear (year : Nat) : Nat :=
  365 * (year - 1) + (year - 1) / 4 - (year - 1) / 100 + (year - 1) / 400

/-- The number of days of a year before the first of a month. -/
def daysBeforeMonth (year : Nat) : Nat → Nat
  | 0 => 0
  | month + 1 => daysBeforeMonth year month + daysInMonth year month

/-- The number of a day, counted from the first of January of year 1, which is 1. -/
def ordinal (d : Date) : Nat :=
  daysBeforeYear d.year + daysBeforeMonth d.year d.month + d.day

/-- The month and the day of the month, from a count of days after the first of `month`. -/
def monthAndDay (year : Nat) : Nat → Nat → Nat → Nat × Nat
  | 0, month, rest => (month, rest + 1)
  | fuel + 1, month, rest =>
    if rest < daysInMonth year month then (month, rest + 1)
    else monthAndDay year fuel (month + 1) (rest - daysInMonth year month)

/-- The year of a day and the number of days of that year before it. Four hundred years, a hundred, four and one are
split off in turn; the last year of a hundred and of four may be a day longer than the others. -/
def yearAndRest (ordinal : Nat) : Nat × Nat :=
  let n := ordinal - 1
  let fourHundreds := n / 146097
  let n := n % 146097
  let hundreds := min 3 (n / 36524)
  let n := n - hundreds * 36524
  let fours := n / 1461
  let n := n % 1461
  let ones := min 3 (n / 365)
  (400 * fourHundreds + 100 * hundreds + 4 * fours + ones + 1, n - ones * 365)

/-- The day with a given number, `none` before year 1 and after year 9999. -/
def ofOrdinal? (ordinal : Nat) : Option Date :=
  if ordinal = 0 then none
  else
    let (year, rest) := yearAndRest ordinal
    let (month, day) := monthAndDay year 11 1 rest
    of? year month day

/-- The first day of the calendar. -/
def first : Date :=
  { year := 1, month := 1, day := 1 }

/-- The day a number of days after the first. Within the calendar the default is never taken. -/
def afterFirst (days : Nat) : Date :=
  (ofOrdinal? (days + 1)).getD first

/-- The day of the week of a day, Monday being zero. -/
def weekday (ordinal : Nat) : Nat :=
  (ordinal + 6) % 7

/-- The number of the Monday that begins the first week of a year: the week that holds its first Thursday. -/
def firstMonday (year : Nat) : Int :=
  let firstDay : Int := daysBeforeYear year + 1
  let offset : Int := weekday (daysBeforeYear year + 1)
  if 3 < offset then firstDay - offset + 7 else firstDay - offset

/-- Whether the weeks of a year run to a 53rd: years that begin on a Thursday, and leap years that begin on a
Wednesday. -/
def hasLongWeeks (year : Nat) : Bool :=
  let first := weekday (daysBeforeYear year + 1)
  first == 3 || (first == 2 && isLeapYear year)

/-- The day given by a year, a week of that year and a day of that week, Monday being one. -/
def ofWeek? (year week day : Nat) : Option Date :=
  if year = 0 ∨ week = 0 ∨ 53 < week ∨ (week = 53 ∧ !hasLongWeeks year) ∨ day = 0 ∨ 7 < day then none
  else
    let ordinal := firstMonday year + (week - 1) * 7 + (day - 1)
    if ordinal ≤ 0 then none else ofOrdinal? ordinal.toNat

end Date

end Winnow
