import Winnow.Time.Iso
import Winnow.Value

/-!
# Values as plain data

What a condition, a query or a relative date is written as: objects and lists of plain values, from which it can be read
back. Dates become texts and sequences become lists; every other value stays as it is.
-/

namespace Winnow

/-- A relative date as plain data. -/
def encodeDaysAgo (days : Nat) : Value :=
  .object [("daysAgo", .int days)]

mutual

/-- A value as plain data. -/
def Value.encode : Value → Value
  | .condition c => .object c.encodeEntries
  | .query pairs => .list (encodePairs pairs)
  | .daysAgo days => encodeDaysAgo days
  | .list items => .list (encodeItems items)
  | .tuple items => .list (encodeItems items)
  | .date d => .text d.toIso
  | .datetime t => .text t.toIso
  | v => v
termination_by structural v => v

/-- The entries of a condition as plain data. -/
def Condition.encodeEntries : Condition → List (String × Value)
  | .compare op operand => [("op", .text op.name), ("value", operand.encode)]
  | .combine op members => [("op", .text op.name), ("value", .list (encodeItems members))]
  | .nested op operand => [("op", .text op.name), ("value", operand.encode)]
termination_by structural c => c

/-- Each of some values as plain data. -/
def encodeItems : List Value → List Value
  | [] => []
  | v :: rest => v.encode :: encodeItems rest
termination_by structural items => items

/-- The pairs of a query as plain data: each condition with its field in front. -/
def encodePairs : List (String × Condition) → List Value
  | [] => []
  | (field, c) :: rest => .object (("field", .text field) :: c.encodeEntries) :: encodePairs rest
termination_by structural pairs => pairs

end

theorem encodeItems_eq (items : List Value) : encodeItems items = items.map Value.encode := by
  induction items with
  | nil => rfl
  | cons v rest ih => rw [encodeItems, ih, List.map_cons]

/-- A pair of a query as plain data. -/
def encodePair (p : String × Condition) : Value :=
  .object (("field", .text p.1) :: p.2.encodeEntries)

theorem encodePairs_eq (pairs : List (String × Condition)) : encodePairs pairs = pairs.map encodePair := by
  induction pairs with
  | nil => rfl
  | cons p rest ih =>
    obtain ⟨field, c⟩ := p
    rw [encodePairs, ih, List.map_cons]
    rfl

/-- A condition as plain data. -/
def Condition.encode (c : Condition) : Value :=
  .object c.encodeEntries

/-- A query as plain data. -/
def Query.encode (q : Query) : Value :=
  .list (encodePairs q)

end Winnow
