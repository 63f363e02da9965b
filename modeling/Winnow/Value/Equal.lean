import Winnow.Value

/-!
# Equality of values

Numbers are equal by value, whatever their form, and texts by their characters. A date never equals a date with a
time, a naive date and time never equals an aware one, and aware ones are equal when they are the same instant. A list
never equals a tuple, and objects and records are equal regardless of the order of their keys.

A signaling NaN refuses to be tested against a number. A test of two values that hold others goes from item to item up
to the first difference, and is refused when it comes to such a pair.
-/

namespace Winnow

/-- Equality of two values that hold no others. -/
def Value.sameScalar (v w : Value) : Bool :=
  match v.asQuantity?, w.asQuantity? with
  | some x, some y => x.same y
  | _, _ =>
    match v.asText?, w.asText? with
    | some s, some t => s == t
    | _, _ =>
      match v, w with
      | .null, .null => true
      | .date d, .date e => d == e
      | .datetime t, .datetime u => t.order? u == some .eq
      | .time t, .time u => t.order? u == some .eq
      | .uuid s, .uuid t => s == t
      | .symbol family name _, .symbol family' name' _ => family == family' && name == name'
      | .daysAgo n, .daysAgo m => n == m
      | _, _ => false

mutual

/-- Equality of two values. -/
def Value.same (v w : Value) : Bool :=
  match v with
  | .list items => match w with
    | .list items' => sameItems items items'
    | _ => false
  | .tuple items => match w with
    | .tuple items' => sameItems items items'
    | _ => false
  | .object entries => match w with
    | .object entries' => entries.length == entries'.length && sameEntries entries entries'
    | _ => false
  | .record fields => match w with
    | .record fields' => fields.length == fields'.length && sameEntries fields fields'
    | _ => false
  | .condition c => match w with
    | .condition c' => c.same c'
    | _ => false
  | .query pairs => match w with
    | .query pairs' => samePairs pairs pairs'
    | _ => false
  | v => v.sameScalar w
termination_by structural v

/-- Equality of two conditions: the same operator and equal operands. -/
def Condition.same (c d : Condition) : Bool :=
  match c with
  | .compare op operand => match d with
    | .compare op' operand' => op == op' && operand.same operand'
    | _ => false
  | .combine op members => match d with
    | .combine op' members' => op == op' && sameItems members members'
    | _ => false
  | .nested op operand => match d with
    | .nested op' operand' => op == op' && operand.same operand'
    | _ => false
termination_by structural c

/-- Equality of two sequences of values, item by item. -/
def sameItems (items items' : List Value) : Bool :=
  match items with
  | [] => items'.isEmpty
  | v :: rest => match items' with
    | [] => false
    | w :: rest' => v.same w && sameItems rest rest'
termination_by structural items

/-- Whether each entry has an equal one among others. -/
def sameEntries (entries entries' : List (String × Value)) : Bool :=
  match entries with
  | [] => true
  | (key, v) :: rest => (match entries'.lookup key with
    | some w => v.same w
    | none => false) && sameEntries rest entries'
termination_by structural entries

/-- Equality of two queries, pair by pair. -/
def samePairs (pairs pairs' : List (String × Condition)) : Bool :=
  match pairs with
  | [] => pairs'.isEmpty
  | (field, c) :: rest => match pairs' with
    | [] => false
    | (field', d) :: rest' => field == field' && c.same d && samePairs rest rest'
termination_by structural pairs

end

/-- Equality of two queries. -/
def Query.same (q r : Query) : Bool :=
  samePairs q r

/-- Whether two values that hold no others are numbers of which one is a signaling NaN. -/
def Value.signalsScalar (v w : Value) : Bool :=
  v.asQuantity?.isSome && w.asQuantity?.isSome && (v.isSignaling || w.isSignaling)

/-- Two values of which none is a signaling NaN can be tested for equality. -/
theorem Value.signalsScalar_eq_false {v w : Value} (hv : v.isSignaling = false) (hw : w.isSignaling = false) :
    v.signalsScalar w = false := by
  rw [signalsScalar, hv, hw]
  exact Bool.and_false _

mutual

/-- Whether a test of two values for equality comes to a signaling NaN. Lists and objects of different sizes are
different before any item of them is looked at. -/
def Value.signals (v w : Value) : Bool :=
  match v with
  | .list items => match w with
    | .list items' => items.length == items'.length && signalsItems items items'
    | _ => false
  | .tuple items => match w with
    | .tuple items' => signalsItems items items'
    | _ => false
  | .object entries => match w with
    | .object entries' => entries.length == entries'.length && signalsEntries entries entries'
    | _ => false
  | .record fields => match w with
    | .record fields' => fields.length == fields'.length && signalsEntries fields fields'
    | _ => false
  | .condition c => match w with
    | .condition c' => c.signals c'
    | _ => false
  | .query pairs => match w with
    | .query pairs' => signalsPairs pairs pairs'
    | _ => false
  | v => v.signalsScalar w
termination_by structural v

/-- Whether a test of two conditions comes to a signaling NaN. -/
def Condition.signals (c d : Condition) : Bool :=
  match c with
  | .compare op operand => match d with
    | .compare op' operand' => op == op' && operand.signals operand'
    | _ => false
  | .combine op members => match d with
    | .combine op' members' => op == op' && signalsItems members members'
    | _ => false
  | .nested op operand => match d with
    | .nested op' operand' => op == op' && operand.signals operand'
    | _ => false
termination_by structural c

/-- Whether a test of two sequences, item by item, comes to a signaling NaN. -/
def signalsItems (items items' : List Value) : Bool :=
  match items with
  | [] => false
  | v :: rest => match items' with
    | [] => false
    | w :: rest' => v.signals w || (v.same w && signalsItems rest rest')
termination_by structural items

/-- Whether a test of entries, key by key, comes to a signaling NaN. -/
def signalsEntries (entries entries' : List (String × Value)) : Bool :=
  match entries with
  | [] => false
  | (key, v) :: rest => match entries'.lookup key with
    | some w => v.signals w || (v.same w && signalsEntries rest entries')
    | none => false
termination_by structural entries

/-- Whether a test of two queries, pair by pair, comes to a signaling NaN. -/
def signalsPairs (pairs pairs' : List (String × Condition)) : Bool :=
  match pairs with
  | [] => false
  | (field, c) :: rest => match pairs' with
    | [] => false
    | (field', d) :: rest' => field == field' && (c.signals d || (c.same d && signalsPairs rest rest'))
termination_by structural pairs

end

/-- Whether two values are equal, `none` when the test is refused. -/
def Value.same? (v w : Value) : Option Bool :=
  if v.signals w then none else some (v.same w)

end Winnow
