import Winnow.Ranking
import Winnow.Search.Translate

/-!
# Sort clauses

The sort of a filter as a search engine reads it: the sort field first, if there is one, and the identifier to break
ties, both in the direction of the filter.
-/

namespace Winnow

/-- The word for a direction in a sort clause. -/
def Direction.word : Direction → String
  | .asc => "asc"
  | .desc => "desc"

/-- A clause of a sort. -/
inductive SortClause where
  /-- By the identifier. -/
  | byId (field : String) (direction : Direction)
  /-- By a field, documents without a value going where `missing` says. -/
  | byField (field : String) (direction : Direction) (missing : String)
  /-- By a field of those elements of a collection whose `filterField` equals a value. -/
  | byElement (style : NestedSortStyle) (field : String) (direction : Direction) (missing : String) (path : String)
      (filterField : String) (filterValue : Value)

namespace SortClause

/-- A clause as it stands in a search body. -/
def toValue : SortClause → Value
  | byId field direction => Clause.keyed field (Clause.keyed "order" (.text direction.word))
  | byField field direction missing =>
    Clause.keyed field (.object [("order", .text direction.word), ("missing", .text missing)])
  | byElement style field direction missing path filterField filterValue =>
    let filter := Clause.keyed "term" (Clause.keyed filterField filterValue)
    let nested := match style with
      | .legacy => [("nested_path", .text path), ("nested_filter", filter)]
      | .nested => [("nested", .object [("path", .text path), ("filter", filter)])]
    Clause.keyed field (.object ([("order", .text direction.word), ("missing", .text missing)] ++ nested))

end SortClause

namespace Translator

/-- The indexed name of a sort field; a field that is no text is shown as one and not looked up. -/
def sortName (t : Translator) (field : Value) : Logged String :=
  match field.asText? with
  | some name => t.fieldMap.apply name
  | none => .ofResult (Fault.ofWriting field.plainText)

/-- The clause of the sort field. -/
def primarySort (t : Translator) (f : Filter) : Logged SortClause :=
  if f.hasNestedSort then do
    let outer ← .ofResult (Fault.ofWriting f.sortField.plainText)
    let inner ← .ofResult (Fault.ofWriting f.subProp.plainText)
    let field ← t.fieldMap.apply (Path.join outer inner)
    let path ← t.sortName f.sortField
    let filterField ← t.fieldMap.apply (Path.join outer "id")
    return .byElement t.nestedSortStyle field f.direction t.missing path filterField f.subId.searchable
  else do
    return .byField (← t.sortName f.sortField) f.direction t.missing

/-- The clauses of the sort of a filter. -/
def translateSort (t : Translator) (f : Filter) : Logged (List SortClause) := do
  let tieBreak := SortClause.byId t.idField f.direction
  if f.hasSort t.idField then return [← t.primarySort f, tieBreak] else return [tieBreak]

end Translator

end Winnow
