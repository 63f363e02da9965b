import Winnow.Fault
import Winnow.Time.Reader

/-!
# Dates among values

When a value stands for an instant: a date, a date with a time, or a text of one in any ISO 8601 spelling. Two values of
which one is a date are compared as instants; if the other stands for none, they are not compared at all.
-/

namespace Winnow

/-- The instant of a date and time. -/
def DateTime.toInstant (t : DateTime) : Except Fault Instant :=
  match t.toInstant? with
  | some i => .ok i
  | none => .error .outOfCalendar

/-- The date and time that a text stands for, `Z` being read as the offset zero. -/
def readMoment? (text : String) : Option DateTime :=
  Iso.readDateTime? (Text.replaceChar 'Z' "+00:00".toList text.toList)

/-- The date, alone or with a time, that a text is the canonical form of. -/
def readCanonical? (text : String) : Option Value :=
  match (Iso.readDateTime? text.toList).filter fun t => t.isoChars = text.toList with
  | some t => some (.datetime t)
  | none =>
    if text.length = 10 then
      ((Iso.readDate? text.toList).filter fun d => d.isoChars = text.toList).map Value.date
    else none

namespace Value

/-- The instant that a value stands for, `none` when it stands for none. -/
def toInstant (v : Value) : Except Fault (Option Instant) :=
  match v with
  | datetime t => t.toInstant.map some
  | date d => (DateTime.ofDate d).toInstant.map some
  | v => match v.asText?.bind readMoment? with
    | some t => t.toInstant.map some
    | none => .ok none

/-- An instant as a value. -/
def ofInstant (i : Instant) : Value :=
  .datetime (.ofInstant i)

end Value

/-- Two values in a form in which they are compared. -/
inductive Comparable where
  | instants (left right : Instant)
  | values (left right : Value)

namespace Comparable

/-- The form in which two values are compared, `none` when they are not. -/
def of (v w : Value) : Except Fault (Option Comparable) := do
  if v.isTemporal || w.isTemporal then
    let left ← v.toInstant
    let right ← w.toInstant
    match left, right with
    | some i, some j => return some (.instants i j)
    | _, _ => return none
  else return some (.values v w)

/-- Whether two values are equal, `none` when the test is refused. -/
def same? : Comparable → Option Bool
  | instants i j => some (i == j)
  | values v w => v.same? w

/-- The order of two values. -/
def order : Comparable → Except OrderFault (Option Ordering)
  | instants i j => .ok (some (compare i.micros j.micros))
  | values v w => v.order w

/-- The two values themselves. -/
def toValues : Comparable → Value × Value
  | instants i j => (.ofInstant i, .ofInstant j)
  | values v w => (v, w)

end Comparable

end Winnow
