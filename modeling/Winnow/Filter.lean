import Winnow.Condition

/-!
# Filters

A filter is a list of statements, all of which must hold, a sort and a limit. A statement is a list of alternatives, one
of which must hold; an alternative is meant to be a query. The parts of the sort and the limit are kept as they were
given: only a filter read from plain data, or made by a builder, has them checked.
-/

namespace Winnow

/-- Alternatives, each meant to be a query, one of which must hold. -/
abbrev Statement := List Value

/-- Statements with a sort and a limit. A sort by `subProp` of the element with identifier `subId` looks into the
collection `sortField`. -/
structure Filter where
  statements : List Statement := []
  sortField : Value := .null
  subId : Value := .null
  subProp : Value := .null
  direction : Direction := .asc
  limit : Value := .int 10

namespace Filter

/-- The statements of given queries. -/
def statementsOf (statements : List (List Query)) : List Statement :=
  statements.map fun statement => statement.map Value.query

/-- The names of the parts that can be replaced. -/
def partNames : List String :=
  ["statements", "sort_field_id", "sort_field_sub_id", "sort_field_sub_prop", "sort_direction", "limit"]

/-- The statements in a sequence of sequences. -/
def readStatements (v : Value) : Except Fault (List Statement) := do
  (← v.items).mapM Value.items

/-- A filter with some of its parts replaced, the last of several for one part counting. -/
def replace (f : Filter) (changes : List (String × Value)) : Except Fault Filter := do
  let unknown := (changes.map (·.1)).filter fun name => !partNames.contains name
  if !unknown.isEmpty then throw (.unknownParts unknown)
  let part (name : String) : Option Value := changes.reverse.lookup name
  let statements ← ((part "statements").map readStatements).getD (.ok f.statements)
  let direction ← ((part "sort_direction").map Direction.read).getD (.ok f.direction)
  return {
    statements
    sortField := (part "sort_field_id").getD f.sortField
    subId := (part "sort_field_sub_id").getD f.subId
    subProp := (part "sort_field_sub_prop").getD f.subProp
    direction
    limit := (part "limit").getD f.limit }

/-- The filter with given parts and the default for every other. -/
def ofParts (parts : List (String × Value)) : Except Fault Filter :=
  replace {} parts

/-- An alternative as plain data. -/
def encodeAlternative : Value → Except Fault Value
  | .query q => .ok (Query.encode q)
  | .condition c => .ok c.encode
  | .daysAgo days => .ok (encodeDaysAgo days)
  | _ => .error .missingPart

/-- The sort of a filter as plain data. -/
def encodeSort (f : Filter) : Value :=
  .object [("field_id", f.sortField), ("sub_id", f.subId), ("sub_prop", f.subProp),
    ("direction", .text f.direction.name)]

/-- A filter as plain data. -/
def encode (f : Filter) : Except Fault Value := do
  let statements ← f.statements.mapM fun statement => return .list (← statement.mapM encodeAlternative)
  return .object [("statements", .list statements), ("sort", f.encodeSort), ("limit", f.limit)]

/-- The parts of a filter as values, in order. -/
def parts (f : Filter) : List Value :=
  [.tuple (f.statements.map .tuple), f.sortField, f.subId, f.subProp, .direction f.direction, f.limit]

/-- Equality of two filters, part by part. -/
def same (f g : Filter) : Bool :=
  sameItems f.parts g.parts

/-- Whether two filters are equal, `none` when the test is refused. -/
def same? (f g : Filter) : Option Bool :=
  (Value.tuple f.parts).same? (.tuple g.parts)

/-- The display of a filter: the number of its statements, its sort and its limit. -/
def display (f : Filter) : Option String := do
  return shownCall "Filter" ["statements=" ++ toString f.statements.length,
    "sort=" ++ (← f.sortField.display) ++ " " ++ f.direction.name, "limit=" ++ (← f.limit.plainText)]

end Filter

end Winnow
