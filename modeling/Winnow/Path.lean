import Winnow.Text.Chars
import Winnow.Value

/-!
# Field paths

A path names a field of a field, with points between the names. Where a list or a tuple stands on the way, the rest of
the path is followed in each of its items; where a part is missing, there is null. A field has as many values as there
are values that are not null in what its path leads to.
-/

namespace Winnow

namespace Path

/-- The names along a path. -/
def parts (path : String) : List String :=
  (Text.splitOn '.' path.toList).map String.ofList

/-- The path of a field inside another. -/
def join (outer inner : String) : String :=
  outer ++ "." ++ inner

end Path

namespace DateTime

/-- A part of a date with a time by name. -/
def part (t : DateTime) : String → Value
  | "year" => .int t.date.year
  | "month" => .int t.date.month
  | "day" => .int t.date.day
  | "hour" => .int t.time.hour
  | "minute" => .int t.time.minute
  | "second" => .int t.time.second
  | "microsecond" => .int t.time.micro
  | _ => .null

end DateTime

namespace Value

/-- A part of a whole number by name: it is its own real part and numerator. -/
def numberPart (n : Int) : String → Value
  | "real" => .int n
  | "numerator" => .int n
  | "imag" => .int 0
  | "denominator" => .int 1
  | _ => .null

/-- The part of a value with a given name, null when it has none. -/
def member (v : Value) (part : String) : Value :=
  match v with
  | object entries => lookup part entries
  | record fields => lookup part fields
  | date d => if part = "year" then .int d.year else if part = "month" then .int d.month
    else if part = "day" then .int d.day else .null
  | datetime t => t.part part
  | time t => if part = "hour" then .int t.time.hour else if part = "minute" then .int t.time.minute
    else if part = "second" then .int t.time.second else if part = "microsecond" then .int t.time.micro else .null
  | bool b => numberPart (if b then 1 else 0) part
  | int n => numberPart n part
  | float x => if part = "real" then .float x else if part = "imag" then .float (.ofInt 0) else .null
  | _ => .null

mutual

/-- A function on values carried to the items of lists and tuples, however nested; null stays null. -/
def throughLists (f : Value → Value) : Value → Value
  | null => null
  | list items => list (throughItems f items)
  | tuple items => list (throughItems f items)
  | v => f v
termination_by structural v => v

/-- A function on values carried to each of some items. -/
def throughItems (f : Value → Value) : List Value → List Value
  | [] => []
  | v :: rest => throughLists f v :: throughItems f rest
termination_by structural items => items

end

/-- What the names along a path lead to. -/
def follow : List String → Value → Value
  | [], v => v
  | part :: rest, v => throughLists (fun inner => follow rest (inner.member part)) v

/-- What a path leads to. -/
def resolve (v : Value) (path : String) : Value :=
  follow (Path.parts path) v

mutual

/-- The values of a field: what a value holds through lists and tuples, without null. -/
def elements : Value → List Value
  | null => []
  | list items => elementsOfItems items
  | tuple items => elementsOfItems items
  | v => [v]
termination_by structural v => v

/-- The values that some items hold, in order. -/
def elementsOfItems : List Value → List Value
  | [] => []
  | v :: rest => v.elements ++ elementsOfItems rest
termination_by structural items => items

end

end Value

end Winnow
