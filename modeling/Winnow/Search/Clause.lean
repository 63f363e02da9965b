import Winnow.Operator
import Winnow.Value

/-!
# Search clauses

The clauses that a query is translated to. A fragment holds what a document must match and what it must not; each of the
two lists may be absent, which is not the same as being empty, and merging fragments demands all that any of them
demands.
-/

namespace Winnow

/-- What must match and what must not, each list present or absent. -/
structure Fragment (α : Type) where
  filter : Option (List α) := none
  mustNot : Option (List α) := none

namespace Fragment

variable {α : Type}

/-- Two lists that may be absent, one behind the other; absent only when both are. -/
def mergeLists : Option (List α) → Option (List α) → Option (List α)
  | some xs, some ys => some (xs ++ ys)
  | some xs, none => some xs
  | none, ys => ys

/-- The demands of two fragments together. -/
def merge (f g : Fragment α) : Fragment α :=
  ⟨mergeLists f.filter g.filter, mergeLists f.mustNot g.mustNot⟩

/-- The demands of fragments together, in order. -/
def mergeAll (fragments : List (Fragment α)) : Fragment α :=
  fragments.foldl merge {}

/-- The fragment of one clause that must match. -/
def must (clause : α) : Fragment α :=
  { filter := some [clause] }

/-- The fragment of one clause that must not match. -/
def exclude (clause : α) : Fragment α :=
  { mustNot := some [clause] }

end Fragment

/-- The word for a range bound in a clause. -/
def Bound.word : Bound → String
  | .lt => "lt"
  | .lte => "lte"
  | .gt => "gt"
  | .gte => "gte"

/-- A clause of a search. -/
inductive Clause where
  /-- The field has a value equal to the given one. -/
  | term (field : String) (value : Value)
  /-- The field has a value. -/
  | present (field : String)
  /-- The field has a value within a bound. -/
  | range (field : String) (bound : Bound) (value : Value)
  /-- The field has a text that begins with the given one. -/
  | startsWith (field : String) (value : Value)
  /-- Some element of the collection at a path matches a fragment. -/
  | nested (path : String) (query : Fragment Clause)
  /-- Some clause matches, the best one counting. -/
  | best (queries : List Clause)
  /-- A fragment matches. -/
  | bool (fragment : Fragment Clause)
  /-- At least one clause matches. -/
  | anyOf (should : List Clause)

namespace Clause

/-- An object of one key. -/
def keyed (key : String) (value : Value) : Value :=
  .object [(key, value)]

mutual

/-- A clause as it stands in a search body. -/
def toValue : Clause → Value
  | term field value => keyed "term" (keyed field value)
  | present field => keyed "exists" (keyed "field" (.text field))
  | range field bound value => keyed "range" (keyed field (keyed bound.word value))
  | startsWith field value => keyed "prefix" (keyed field value)
  | nested path query =>
    keyed "nested" (.object [("path", .text path), ("query", keyed "bool" (.object (fragmentEntries query)))])
  | best queries => keyed "dis_max" (keyed "queries" (.list (toValues queries)))
  | bool fragment => keyed "bool" (.object (fragmentEntries fragment))
  | anyOf should => keyed "bool" (.object [("minimum_should_match", .int 1), ("should", .list (toValues should))])
termination_by structural c => c

/-- The entries of a fragment as it stands in a search body. -/
def fragmentEntries : Fragment Clause → List (String × Value)
  | ⟨filter, mustNot⟩ => listEntries "filter" filter ++ listEntries "must_not" mustNot
termination_by structural f => f

/-- A list that may be absent as an entry. -/
def listEntries (key : String) : Option (List Clause) → List (String × Value)
  | none => []
  | some clauses => [(key, .list (toValues clauses))]
termination_by structural clauses => clauses

/-- Each of some clauses as it stands in a search body. -/
def toValues : List Clause → List Value
  | [] => []
  | c :: rest => c.toValue :: toValues rest
termination_by structural clauses => clauses

end

end Clause

/-- A fragment as it stands in a search body. -/
def Fragment.toValue (f : Fragment Clause) : Value :=
  .object (Clause.fragmentEntries f)

end Winnow
