import Winnow.Fault

/-!
# Building conditions and queries

An operator may be given by its name in any case of letters. Every operand is taken as it is, except that a combinator
takes its members from any sequence, and none from an operand that is not given.
-/

namespace Winnow

namespace Operator

/-- The operator with a given name in any case of letters. -/
def ofText? (name : String) : Option Operator :=
  ofName? (String.ofList (Text.capitals name.toList))

/-- The operator that a value names. -/
def read : Value → Except Fault Operator
  | .operator op => .ok op
  | v => do
    let name ← Fault.ofWriting v.plainText
    match ofText? name with
    | some op => return op
    | none => throw (.unknownOperator (.ofName name .null))

end Operator

namespace Direction

/-- The place of the direction in a filter given as data. -/
def place : Place :=
  [.key "sort", .key "direction"]

/-- The direction that a value names, in any case of letters. -/
def named? : Value → Option Direction
  | .direction d => some d
  | v => v.plainText.bind fun name => ofName? (String.ofList (Text.capitals name.toList))

/-- The direction that a value names, a fault that shows the value when it names none. -/
def read (v : Value) : Except Fault Direction := do
  match named? v with
  | some d => return d
  | none => throw (.problem ⟨place, .badDirection (← Fault.ofWriting v.display)⟩)

end Direction

/-- The items of a value that can be gone through: those of a sequence, the characters of a text, the keys of an object,
the pairs of a query. -/
def Value.items? (v : Value) : Option (List Value) :=
  match v.asText?, v with
  | some s, _ => some (s.toList.map fun c => .text (String.singleton c))
  | none, .list items => some items
  | none, .tuple items => some items
  | none, .object entries => some (entries.map fun entry => .text entry.1)
  | none, .query pairs => some (pairs.map fun pair => .tuple [.text pair.1, .condition pair.2])
  | none, .daysAgo days => some [.tuple [.text "days_ago", .int days]]
  | none, _ => none

/-- The items of a value, a fault when it has none to go through. -/
def Value.items (v : Value) : Except Fault (List Value) :=
  match v.items? with
  | some items => .ok items
  | none => .error .kindMismatch

namespace Condition

/-- The condition with a given operator and operand. -/
def of (op : Operator) (operand : Value) : Except Fault Condition :=
  match op with
  | .comparison op => .ok (.compare op operand)
  | .membership op => .ok (.nested op operand)
  | .combinator op => if operand.isGiven then operand.items.map (.combine op) else .ok (.combine op [])

/-- The condition with an operator given by name. -/
def ofNamed (op operand : Value) : Except Fault Condition := do
  of (← Operator.read op) operand

/-- The condition of a combinator whose members are given one by one. -/
def gather (op : Combinator) (members : Value) : Except Fault Condition :=
  members.items.map (.combine op)

/-- The field equals a value; with null, the field is missing. -/
def eq (value : Value) : Condition :=
  .compare .eq value

/-- The field differs from a value; with null, the field is present. -/
def neq (value : Value) : Condition :=
  .compare .neq value

/-- The field is on one side of a bound. -/
def within (bound : Bound) (value : Value) : Condition :=
  .compare (.bound bound) value

/-- Some element of the collection matches a query. -/
def find (q : Query) : Condition :=
  .nested .find (.query q)

/-- No element of the collection matches a query. -/
def nfind (q : Query) : Condition :=
  .nested .nfind (.query q)

end Condition

namespace Query

/-- A query with one more condition. -/
def require (q : Query) (field : String) (condition : Condition) : Query :=
  q ++ [(field, condition)]

/-- The query of one condition. -/
def single (field : String) (condition : Condition) : Query :=
  [(field, condition)]

/-- A list of queries with one more, made from that at a position by one more condition; a negative position counts from
the end. -/
def branch (queries : List Query) (position : Int) (field : String) (condition : Condition) :
    Except Fault (List Query) :=
  let index := if position < 0 then position + queries.length else position
  match if 0 ≤ index then queries[index.toNat]? else none with
  | some base => .ok (queries ++ [require base field condition])
  | none => .error .noSuchPosition

/-- The fields of a query with their operators, in order. -/
def summary (q : Query) : List String :=
  q.map fun pair => pair.1 ++ ":" ++ pair.2.op.name

end Query

end Winnow
