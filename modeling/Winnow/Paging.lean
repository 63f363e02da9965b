import Winnow.Logged
import Winnow.Selection

/-!
# Continuing after an item

The next page of a sorted selection is asked for by one more statement, which holds of exactly the items that rank after
the last one of the page before: those with a later sort value, those with the same value and a later identifier, and
those without a value, which rank last.
-/

namespace Winnow

namespace Direction

/-- The bound that is met by what ranks after a value. -/
def afterBound : Direction → Bound
  | asc => .gt
  | desc => .lt

end Direction

namespace Paging

/-- The queries for what ranks after an item, from the conditions on the sort value and on the identifier. When the item
has no sort value, only items without one and with a later identifier are left. -/
def alternatives (value : Value) (later same missing : Query) (tieBreak : String × Condition) : List Query :=
  match value with
  | .null => [missing ++ [tieBreak]]
  | _ => [later, same ++ [tieBreak], missing]

/-- What ranks after an item in a sort by a field of its own. -/
def byField (field : String) (value : Value) (bound : Bound) (tieBreak : String × Condition) : List Query :=
  alternatives value (Query.single field (.within bound value)) (Query.single field (.eq value))
    (Query.single field (.eq .null)) tieBreak

/-- A query on the element with an identifier and on one of its properties. -/
def element (subId : Value) (subProp : String) (condition : Condition) : Query :=
  Query.require (Query.single "id" (.eq subId)) subProp condition

/-- What ranks after an item in a sort by a property of one element of a collection. -/
def byElement (field : String) (subId : Value) (subProp : String) (value : Value) (bound : Bound)
    (tieBreak : String × Condition) : List Query :=
  alternatives value
    (Query.single field (.find (element subId subProp (.within bound value))))
    (Query.single field (.find (element subId subProp (.eq value))))
    (Query.single field (.nfind (element subId subProp (.neq .null)))) tieBreak

end Paging

/-- The text of a value, a fault when it is none. -/
def Value.textOr (v : Value) : Except Fault String :=
  match v.asText? with
  | some s => .ok s
  | none => .error .missingPart

namespace Filter

/-- The queries of the statement for what ranks after an item. -/
def afterItem (f : Filter) (idField : String) (last lastId : Value) : Except Fault (List Query) := do
  let bound := f.direction.afterBound
  let tieBreak := (idField, Condition.within bound lastId)
  if f.hasSort idField then
    let value ← f.sortValue idField last
    let field ← f.sortField.textOr
    if f.hasNestedSort then
      return Paging.byElement field f.subId (← f.subProp.textOr) value bound tieBreak
    else return Paging.byField field value bound tieBreak
  else return [[tieBreak]]

/-- The filter continued after an item; with null for the item, before any page, the filter itself. -/
def continueAfter (f : Filter) (idField : String) (last : Value) : Logged Filter :=
  match last with
  | .null => return f
  | last => do
    match last.resolve idField with
    | .null => .fail (.problem ⟨[.key idField], .noIdentifier idField⟩)
    | lastId =>
      let queries ← .ofResult (f.afterItem idField last lastId)
      let sortShown := if f.sortField.isGiven then f.sortField.plainText else some idField
      .record (.resumed idField lastId.display sortShown f.direction)
      return { f with statements := f.statements ++ Filter.statementsOf [queries] }

/-- A page: its items, and the statements that its filter has beside those of the first page. -/
structure Page (α : Type) where
  items : List α
  added : List Statement

/-- The pages of a selection after a given item, up to a number of them and to the first that is empty. -/
def pagesFrom {α : Type} (f : Filter) (r : Registry) (idField : String) (view : α → Value) (items : List α) :
    Nat → Value → Except Fault (List (Page α))
  | 0, _ => .ok []
  | fuel + 1, last => do
    let continued ← (f.continueAfter idField last).result
    let found ← continued.select r idField view items
    let page : Page α := ⟨found, continued.statements.drop f.statements.length⟩
    match found.getLast? with
    | none => return [page]
    | some x => return page :: (← pagesFrom f r idField view items fuel (view x))

/-- The pages of a selection, at most one more than there are items. -/
def pages {α : Type} (f : Filter) (r : Registry) (idField : String) (view : α → Value) (pageSize : Value)
    (items : List α) : Except Fault (List (Page α)) :=
  pagesFrom { f with limit := pageSize } r idField view items (items.length + 1) .null

end Filter

end Winnow
