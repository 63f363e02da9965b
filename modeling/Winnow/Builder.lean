import Winnow.Filter

/-!
# Building a filter call by call

A builder is a filter in the making: conditions go into the open query, which may be closed to begin an alternative or a
new statement. The open query and the open statement always exist, so that no statement is ever without a query.
-/

namespace Winnow

/-- A filter in the making: the closed statements, the closed queries of the open statement, and the open query. -/
structure Builder where
  closed : List (List Query) := []
  alternatives : List Query := []
  current : Query := []
  sortField : Value := .null
  subId : Value := .null
  subProp : Value := .null
  direction : Direction := .asc
  limit : Int := 10

namespace Builder

/-- One more condition in the open query. -/
def require (b : Builder) (field : String) (condition : Condition) : Builder :=
  { b with current := Query.require b.current field condition }

/-- A new query in the open statement. -/
def or (b : Builder) : Builder :=
  { b with alternatives := b.alternatives ++ [b.current], current := [] }

/-- A new statement. -/
def and (b : Builder) : Builder :=
  { b with closed := b.closed ++ [b.alternatives ++ [b.current]], alternatives := [], current := [] }

/-- The sort; identifier and property of an element are for a sort inside a collection. -/
def sortBy (b : Builder) (field subId subProp : Value) : Builder :=
  { b with sortField := field, subId, subProp }

/-- The direction of the sort. -/
def setDirection (b : Builder) (direction : Value) : Except Fault Builder :=
  (Direction.read direction).map fun direction => { b with direction }

/-- The limit, a positive whole number. -/
def setLimit (b : Builder) (limit : Value) : Except Fault Builder :=
  match limit with
  | .int n => if 1 ≤ n then .ok { b with limit := n } else bad
  | _ => bad
where
  bad : Except Fault Builder := do
    throw (.problem ⟨[.key "limit"], .badLimit (← Fault.ofWriting limit.display)⟩)

/-- The queries of the statements so far. -/
def statements (b : Builder) : List (List Query) :=
  b.closed ++ [b.alternatives ++ [b.current]]

/-- The filter made so far. -/
def build (b : Builder) : Filter where
  statements := Filter.statementsOf b.statements
  sortField := b.sortField
  subId := b.subId
  subProp := b.subProp
  direction := b.direction
  limit := .int b.limit

/-- A call on a builder. -/
inductive Call where
  | require (field : String) (condition : Condition)
  | or
  | and
  | sortBy (field subId subProp : Value)
  | setDirection (direction : Value)
  | setLimit (limit : Value)
  | reset

/-- The builder after a call. -/
def call (b : Builder) : Call → Except Fault Builder
  | .require field condition => .ok (b.require field condition)
  | .or => .ok b.or
  | .and => .ok b.and
  | .sortBy field subId subProp => .ok (b.sortBy field subId subProp)
  | .setDirection direction => b.setDirection direction
  | .setLimit limit => b.setLimit limit
  | .reset => .ok {}

/-- The builder after a call that may fail, a failing call leaving it as it was. -/
def step (b : Builder) (c : Call) : Builder :=
  match b.call c with
  | .ok after => after
  | .error _ => b

end Builder

end Winnow
