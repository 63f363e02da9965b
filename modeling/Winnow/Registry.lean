import Winnow.Filter
import Winnow.Path
import Winnow.RelativeDate

/-!
# Matching items

A registry says for each operator how a condition with it is decided: by the built-in rule, by a fixed answer, or not
at all. The built-in rules are those of a search index: a field has any number of values, null is no value, and a
comparison holds of a field when it holds of one of its values.

A sequence of fields with their conditions is matched as the query that it spells out. Any other operand that should be
a query is a fault once its first pair is looked at.
-/

namespace Winnow

/-- How a condition is decided: by the built-in rule of its operator, or by a fixed answer. -/
inductive Strategy where
  | builtIn
  | constant (answer : Bool)
  deriving DecidableEq

/-- The strategies of the operators that can be decided, in the order of their registration, and the clock that relative
dates are read against. -/
structure Registry where
  strategies : List (Operator × Strategy)
  clock : Clock

namespace Registry

/-- The registry without any operator. -/
def empty (clock : Clock) : Registry :=
  { strategies := [], clock }

/-- The registry with the built-in rule of every operator. -/
def standard (clock : Clock) : Registry :=
  { strategies := Operator.every.map (·, .builtIn), clock }

/-- The strategy of an operator. -/
def get? (r : Registry) (op : Operator) : Option Strategy :=
  r.strategies.lookup op

/-- Whether an operator has a strategy. -/
def has (r : Registry) (op : Operator) : Bool :=
  (r.get? op).isSome

/-- Entries with the strategy of one operator set, in its place or at the end. -/
def put (op : Operator) (strategy : Strategy) : List (Operator × Strategy) → List (Operator × Strategy)
  | [] => [(op, strategy)]
  | (o, s) :: rest => if o = op then (o, strategy) :: rest else (o, s) :: put op strategy rest

/-- The registry with a strategy for an operator in place of any it had. -/
def register (r : Registry) (op : Operator) (strategy : Strategy) : Registry :=
  { r with strategies := put op strategy r.strategies }

/-- The registry without a strategy for an operator. -/
def unregister (r : Registry) (op : Operator) : Registry :=
  { r with strategies := r.strategies.filter fun entry => entry.1 != op }

/-- The names of the operators that have a strategy, in order. -/
def supported (r : Registry) : List String :=
  sortedTexts (r.strategies.map fun entry => entry.1.name)

end Registry

namespace Comparison

/-- Whether one of some values equals another. -/
def contains : List Value → Value → Except Fault Bool
  | [], _ => .ok false
  | v :: rest, expected => do
    match ← Comparable.of v expected with
    | some pair => if ← Fault.ofTest pair.same? then return true else contains rest expected
    | none => contains rest expected

/-- Whether one of some values is within a bound. A value of another kind is not. -/
def withinBound (bound : Bound) : List Value → Value → Except Fault Bool
  | [], _ => .ok false
  | v :: rest, limit => do
    match ← Comparable.of v limit with
    | none => withinBound bound rest limit
    | some pair =>
      match pair.order with
      | .ok order => if bound.admits order then return true else withinBound bound rest limit
      | .error .incomparable => withinBound bound rest limit
      | .error .undefined => throw .undefinedComparison

/-- Whether one of some values is a text with a given beginning. -/
def startsAny (values : List Value) (start : String) : Bool :=
  values.any fun v => match v.asText? with
    | some s => Text.startsWith start.toList s.toList
    | none => false

/-- The built-in rule of a comparison on the values of a field. -/
def holds (op : Comparison) (clock : Clock) (values : List Value) (operand : Value) : Except Fault Bool :=
  match op, operand with
  | eq, .null => .ok values.isEmpty
  | neq, .null => .ok !values.isEmpty
  | eq, _ => contains values operand
  | neq, _ => (contains values operand).map (!·)
  | bound b, _ => do withinBound b values (← RelativeDate.resolve clock b operand)
  | startsWith, .null => .ok false
  | startsWith, _ => (Fault.ofWriting operand.plainText).map (startsAny values)

end Comparison

/-- What is wrong with a sequence that should be a field with its condition. -/
def pairFault (v : Value) : Fault :=
  match v.items? with
  | some items => if items.length = 2 then .missingPart else .notAPair items.length
  | none => .kindMismatch

/-- What is wrong with an alternative that is not a query; nothing is wrong with one that asks for nothing. -/
def alternativeFault? (v : Value) : Option Fault :=
  match v.items? with
  | none => some .kindMismatch
  | some [] => none
  | some (item :: _) => some (pairFault item)

/-- Whether something that should be a query, and is not, holds of an item. -/
def notAQuery (v : Value) : Except Fault Bool :=
  match alternativeFault? v with
  | some fault => .error fault
  | none => .ok true

/-- Whether one of some items passes a test, the first that does deciding. -/
def anyHolds (items : List Value) (test : Value → Except Fault Bool) : Except Fault Bool :=
  match items with
  | [] => .ok false
  | v :: rest => do if ← test v then return true else anyHolds rest test

namespace Registry

mutual

/-- Whether a condition holds of the value that its field leads to. -/
def evaluate (r : Registry) (c : Condition) (value : Value) : Except Fault Bool :=
  match c with
  | .compare op operand => match r.get? (.comparison op) with
    | none => .error (.unregistered (.comparison op))
    | some (.constant answer) => .ok answer
    | some .builtIn => op.holds r.clock value.elements operand
  | .combine op members => match r.get? (.combinator op) with
    | none => .error (.unregistered (.combinator op))
    | some (.constant answer) => .ok answer
    | some .builtIn => match op with
      | .all => everyMember r members value
      | .any => if members.isEmpty then .ok true else someMember r members value
  | .nested op operand => match r.get? (.membership op) with
    | none => .error (.unregistered (.membership op))
    | some (.constant answer) => .ok answer
    | some .builtIn =>
      let found := anyHolds value.elements fun element => matchesOperand r operand element
      match op with
      | .find => found
      | .nfind => found.map (!·)
termination_by structural c

/-- Whether every member of a combinator holds of a value, the first that does not deciding. -/
def everyMember (r : Registry) (members : List Value) (value : Value) : Except Fault Bool :=
  match members with
  | [] => .ok true
  | v :: rest => do
    if ← evaluateMember r v value then everyMember r rest value else return false
termination_by structural members

/-- Whether some member of a combinator holds of a value, the first that does deciding. -/
def someMember (r : Registry) (members : List Value) (value : Value) : Except Fault Bool :=
  match members with
  | [] => .ok false
  | v :: rest => do
    if ← evaluateMember r v value then return true else someMember r rest value
termination_by structural members

/-- Whether a member of a combinator, meant to be a condition, holds of a value. -/
def evaluateMember (r : Registry) (member value : Value) : Except Fault Bool :=
  match member with
  | .condition c => evaluate r c value
  | _ => .error .missingPart
termination_by structural member

/-- Whether an operand, meant to be a query, holds of an item. -/
def matchesOperand (r : Registry) (operand item : Value) : Except Fault Bool :=
  match operand with
  | .query pairs => matchesPairs r pairs item
  | .list pairs => matchesSpelled r pairs item
  | .tuple pairs => matchesSpelled r pairs item
  | v => notAQuery v
termination_by structural operand

/-- Whether every pair of a sequence, each meant to be a field with its condition, holds of an item, the first that does
not deciding. -/
def matchesSpelled (r : Registry) (pairs : List Value) (item : Value) : Except Fault Bool :=
  match pairs with
  | [] => .ok true
  | v :: rest => do
    if ← matchesPair r v item then matchesSpelled r rest item else return false
termination_by structural pairs

/-- Whether a pair, meant to be a field with its condition, holds of an item. -/
def matchesPair (r : Registry) (pair item : Value) : Except Fault Bool :=
  match pair with
  | .list parts => matchesParts r parts item
  | .tuple parts => matchesParts r parts item
  | v => .error (pairFault v)
termination_by structural pair

/-- Whether the parts of a pair, meant to be a field and a condition, hold of an item. -/
def matchesParts (r : Registry) (parts : List Value) (item : Value) : Except Fault Bool :=
  match parts with
  | [field, c] => match field.asText? with
    | some path => evaluateMember r c (item.resolve path)
    | none => .error .missingPart
  | parts => .error (.notAPair parts.length)
termination_by structural parts

/-- Whether every condition of a query holds of an item, the first that does not deciding. -/
def matchesPairs (r : Registry) (pairs : List (String × Condition)) (item : Value) : Except Fault Bool :=
  match pairs with
  | [] => .ok true
  | (field, c) :: rest => do
    if ← evaluate r c (item.resolve field) then matchesPairs r rest item else return false
termination_by structural pairs

end

/-- Whether a query holds of an item. -/
def matchesQuery (r : Registry) (q : Query) (item : Value) : Except Fault Bool :=
  matchesPairs r q item

/-- Whether some alternative of a statement holds of an item. -/
def matchesStatement (r : Registry) (statement : Statement) (item : Value) : Except Fault Bool :=
  anyHolds statement fun alternative => matchesOperand r alternative item

/-- Whether every statement holds of an item. -/
def matchesStatements (r : Registry) (statements : List Statement) (item : Value) : Except Fault Bool :=
  match statements with
  | [] => .ok true
  | statement :: rest => do
    if ← matchesStatement r statement item then matchesStatements r rest item else return false

end Registry

end Winnow
