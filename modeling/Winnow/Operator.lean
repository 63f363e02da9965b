/-!
# Operators

The eleven operators of a condition, grouped by what their operand is: a comparison has a scalar, a combinator has
conditions on the same field, a membership has a query on the elements of a collection. And the two directions of a
sort.
-/

namespace Winnow

/-- A range bound. -/
inductive Bound where
  | lt
  | lte
  | gt
  | gte
  deriving DecidableEq

/-- An operator whose operand is a scalar. Equality with null tests that a field is missing. -/
inductive Comparison where
  | eq
  | neq
  | bound (bound : Bound)
  | startsWith
  deriving DecidableEq

/-- An operator over conditions on one field. -/
inductive Combinator where
  | all
  | any
  deriving DecidableEq

/-- An operator over a query on the elements of a collection. -/
inductive Membership where
  | find
  | nfind
  deriving DecidableEq

/-- The operator of a condition. -/
inductive Operator where
  | comparison (op : Comparison)
  | combinator (op : Combinator)
  | membership (op : Membership)
  deriving DecidableEq

/-- The name of a range bound. -/
def Bound.name : Bound → String
  | lt => "LT"
  | lte => "LTE"
  | gt => "GT"
  | gte => "GTE"

/-- The name of a comparison. -/
def Comparison.name : Comparison → String
  | eq => "EQ"
  | neq => "NEQ"
  | bound b => b.name
  | startsWith => "PREFIX"

/-- The name of a combinator. -/
def Combinator.name : Combinator → String
  | all => "ALL"
  | any => "ANY"

/-- The name of a membership. -/
def Membership.name : Membership → String
  | find => "FIND"
  | nfind => "NFIND"

namespace Operator

/-- The name of an operator. -/
def name : Operator → String
  | comparison op => op.name
  | combinator op => op.name
  | membership op => op.name

/-- Every operator, in the order in which they are documented. -/
def every : List Operator :=
  [comparison .eq, comparison .neq, comparison (.bound .lt), comparison (.bound .lte), comparison (.bound .gt),
    comparison (.bound .gte), combinator .all, combinator .any, comparison .startsWith, membership .find,
    membership .nfind]

/-- The operator with a given name. -/
def ofName? (name : String) : Option Operator :=
  every.find? fun op => op.name == name

theorem mem_every (op : Operator) : op ∈ every := by
  rcases op with (_ | _ | (_ | _ | _ | _) | _) | (_ | _) | (_ | _) <;> decide

theorem ofName?_name (op : Operator) : ofName? op.name = some op := by
  rcases op with (_ | _ | (_ | _ | _ | _) | _) | (_ | _) | (_ | _) <;> decide

end Operator

/-- The direction of a sort. -/
inductive Direction where
  | asc
  | desc
  deriving DecidableEq

namespace Direction

/-- The name of a direction. -/
def name : Direction → String
  | asc => "ASC"
  | desc => "DESC"

/-- The direction with a given name. -/
def ofName? (name : String) : Option Direction :=
  if name == "ASC" then some asc else if name == "DESC" then some desc else none

theorem ofName?_name (d : Direction) : ofName? d.name = some d := by
  cases d <;> decide

end Direction

end Winnow
