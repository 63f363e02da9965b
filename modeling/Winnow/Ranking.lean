import Winnow.Filter
import Winnow.Path
import Winnow.Temporal

/-!
# The order of items

Items are ranked by their value in the sort field and then by their identifier, both in the direction of the sort; items
without a value come last in either direction. Of several values the least counts in ascending and the greatest in
descending order, and dates count as instants.
-/

namespace Winnow

/-- The faults of a comparison among those of the other operations. -/
def orderOf (v w : Value) : Except Fault (Option Ordering) :=
  (v.order w).mapError Fault.ofOrder

/-- The order of two values where no order is taken as equality. -/
def rankOf (v w : Value) : Except Fault Ordering :=
  (orderOf v w).map fun order => order.getD .eq

namespace Direction

/-- An order seen in a direction. -/
def orient (d : Direction) (order : Ordering) : Ordering :=
  match d with
  | asc => order
  | desc => order.swap

/-- The order that makes a value replace the extreme one found before it. -/
def replaces (d : Direction) : Ordering :=
  match d with
  | asc => .lt
  | desc => .gt

end Direction

/-- The extreme of some values, the first of equal ones: the least in ascending and the greatest in descending order. -/
def extremeFrom (d : Direction) (best : Value) : List Value → Except Fault Value
  | [] => .ok best
  | v :: rest => do
    let order ← orderOf v best
    extremeFrom d (if order = some d.replaces then v else best) rest

/-- The extreme of some values, null of none. -/
def extreme (d : Direction) : List Value → Except Fault Value
  | [] => .ok .null
  | v :: rest => extremeFrom d v rest

/-- A value as it is ranked: a date as its instant. -/
def rankable (v : Value) : Except Fault Value :=
  if v.isTemporal then do
    match ← v.toInstant with
    | some i => return .ofInstant i
    | none => return .null
  else .ok v

/-- What a path given as a value leads to. -/
def Value.resolveAt (v path : Value) : Except Fault Value :=
  match path.asText? with
  | some path => .ok (v.resolve path)
  | none => .error .missingPart

namespace Filter

/-- Whether the filter sorts by a field other than the identifier. -/
def hasSort (f : Filter) (idField : String) : Bool :=
  f.sortField.isGiven && !f.sortField.same (.text idField)

/-- Whether the sort looks at a property of one element of a collection. -/
def hasNestedSort (f : Filter) : Bool :=
  f.subId.isGiven && f.subProp.isGiven

/-- The first element with the identifier of the sort. -/
def sortElement? (f : Filter) : List Value → Except Fault (Option Value)
  | [] => .ok none
  | element :: rest => do
    if ← Fault.ofTest ((element.resolve "id").same? f.subId) then return some element else sortElement? f rest

/-- What the sort looks at in an item. -/
def sortSource (f : Filter) (item : Value) : Except Fault Value := do
  let found ← item.resolveAt f.sortField
  if f.hasNestedSort then
    match ← f.sortElement? found.elements with
    | some element => element.resolveAt f.subProp
    | none => return .null
  else return found

/-- The value by which an item is ranked, null when it has none. -/
def sortValue (f : Filter) (idField : String) (item : Value) : Except Fault Value :=
  if f.hasSort idField then do
    let values ← (← f.sortSource item).elements.mapM rankable
    extreme f.direction values
  else .ok .null

end Filter

/-- What an item is ranked by: its value in the sort field and its identifier. -/
structure RankKey where
  value : Value
  id : Value

namespace RankKey

/-- The key of an item. -/
def of (f : Filter) (idField : String) (item : Value) : Except Fault RankKey := do
  return ⟨← f.sortValue idField item, item.resolve idField⟩

/-- The rank of two keys. -/
def rank (d : Direction) (k l : RankKey) : Except Fault Ordering :=
  match k.value, l.value with
  | .null, .null => byId
  | _, .null => .ok .lt
  | .null, _ => .ok .gt
  | v, w => do
    match ← rankOf v w with
    | .eq => byId
    | order => return d.orient order
where
  byId : Except Fault Ordering := (rankOf k.id l.id).map d.orient

/-- Whether one key ranks before another. -/
def before (d : Direction) (k l : RankKey) : Except Fault Bool :=
  (rank d k l).map (· == .lt)

end RankKey

end Winnow
