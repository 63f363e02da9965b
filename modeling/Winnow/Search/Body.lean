import Winnow.Search.Sort
import Winnow.Text.Uuid

/-!
# Search bodies

The body of a search request for a filter: its query, its size and its sort.
-/

namespace Winnow

/-- The body of a search request. -/
structure SearchBody where
  query : Clause
  size : Value
  sort : List SortClause

/-- A body as plain data. -/
def SearchBody.toValue (b : SearchBody) : Value :=
  .object [("query", b.query.toValue), ("size", b.size), ("sort", .list (b.sort.map SortClause.toValue))]

/-- The whole number that records a size: the whole part of a number, or the number that an identifier writes. -/
def recordedSize : Value → Except Fault Int
  | .int n => .ok n
  | .bool b => .ok (if b then 1 else 0)
  | .float x => match x.truncate? with
    | some n => .ok n
    | none => .error (.notWhole .binary x.isNaN)
  | .decimal x => match x.truncate? with
    | some n => .ok n
    | none => .error (.notWhole .decimal x.isNaN)
  | .uuid canonical => .ok (Text.uuidNumber canonical)
  | _ => .error .kindMismatch

namespace Translator

/-- The body of a search request for a filter. -/
def build (t : Translator) (f : Filter) : Logged SearchBody := do
  let query ← t.translateStatements f.statements
  let sort ← t.translateSort f
  let size ← .ofResult (recordedSize f.limit)
  .record (.built f.statements.length sort.length size)
  return { query, size := f.limit, sort }

end Translator

end Winnow
