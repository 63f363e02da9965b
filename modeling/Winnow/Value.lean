import Winnow.Number.Quantity
import Winnow.Operator
import Winnow.Time.DateTime

/-!
# Values, conditions and queries

The values that items hold and conditions carry, and the conditions themselves, which are values too. A condition is one
operator applied to one field; a query is a list of field names with conditions, all of which must hold. An operand is
kept as it was given, whether its operator can use it or not.
-/

namespace Winnow

mutual

/-- A value of an item or an operand. An `object` is looked into by its keys and a `record` by its attributes; a
`symbol` is a named member of a closed family, with the content that it stands for. -/
inductive Value where
  | null
  | bool (b : Bool)
  | int (n : Int)
  | float (x : Binary64)
  | decimal (x : Decimal)
  | text (s : String)
  | date (d : Date)
  | datetime (t : DateTime)
  | time (t : ClockTime)
  | uuid (canonical : String)
  | symbol (family name : String) (content : Value)
  | operator (op : Operator)
  | direction (d : Direction)
  | daysAgo (days : Nat)
  | list (items : List Value)
  | tuple (items : List Value)
  | object (entries : List (String × Value))
  | record (fields : List (String × Value))
  | condition (c : Condition)
  | query (pairs : List (String × Condition))

/-- One operator with its operand. The members of a combinator are meant to be conditions, the operand of a membership a
query. -/
inductive Condition where
  | compare (op : Comparison) (operand : Value)
  | combine (op : Combinator) (members : List Value)
  | nested (op : Membership) (operand : Value)

end

/-- Field names with their conditions, in order; a field may occur more than once. -/
abbrev Query := List (String × Condition)

instance : Inhabited Value := ⟨.null⟩

namespace Condition

/-- The operator of a condition. -/
def op : Condition → Operator
  | compare op _ => .comparison op
  | combine op _ => .combinator op
  | nested op _ => .membership op

/-- The operand of a condition; the members of a combinator as a tuple. -/
def operand : Condition → Value
  | compare _ operand => operand
  | combine _ members => .tuple members
  | nested _ operand => operand

end Condition

namespace Value

/-- The text of a text or of a named operator or direction, which count as texts. -/
def asText? : Value → Option String
  | text s => some s
  | operator op => some op.name
  | direction d => some d.name
  | _ => none

/-- The value of a number; truth values are numbers too. -/
def asQuantity? : Value → Option Quantity
  | bool b => some (.ofBool b)
  | int n => some (.ofInt n)
  | float x => some (.ofBinary64 x)
  | decimal x => some (.ofDecimal x)
  | _ => none

/-- Whether a value is a NaN that refuses to be compared. -/
def isSignaling : Value → Bool
  | decimal x => x.isSignaling
  | _ => false

/-- Whether a value is a date, with or without a time. -/
def isTemporal : Value → Bool
  | date _ => true
  | datetime _ => true
  | _ => false

/-- Whether a value counts as given: null, false, zero and what is empty do not. -/
def isGiven : Value → Bool
  | null => false
  | bool b => b
  | int n => n != 0
  | float x => !x.isZero
  | decimal (.finite _ digits _) => digits != 0
  | text s => !s.isEmpty
  | list items => !items.isEmpty
  | tuple items => !items.isEmpty
  | object entries => !entries.isEmpty
  | query pairs => !pairs.isEmpty
  | _ => true

/-- The word for the kind of a value in messages. -/
def kind : Value → String
  | null => "NoneType"
  | bool _ => "bool"
  | int _ => "int"
  | float _ => "float"
  | decimal _ => "Decimal"
  | text _ => "str"
  | date _ => "date"
  | datetime _ => "datetime"
  | time _ => "time"
  | uuid _ => "UUID"
  | symbol family _ _ => family
  | operator _ => "FilterOperator"
  | direction _ => "SortDirection"
  | daysAgo _ => "DaysAgo"
  | list _ => "list"
  | tuple _ => "tuple"
  | object _ => "dict"
  | record _ => "object"
  | condition _ => "Condition"
  | query _ => "Query"

/-- The value at a key of an object, null when the key is absent. -/
def lookup (key : String) (entries : List (String × Value)) : Value :=
  (entries.lookup key).getD null

/-- Entries with one key set: in its place when it is there, and else at the end. -/
def insertEntry (key : String) (value : Value) : List (String × Value) → List (String × Value)
  | [] => [(key, value)]
  | (k, v) :: rest => if k = key then (k, value) :: rest else (k, v) :: insertEntry key value rest

end Value

end Winnow
