import Winnow.Text.Capital
import Winnow.Text.Closest
import Winnow.Value.Display

/-!
# Unknown operators

The report on a name that is no operator: the name, where it stood, the known names most like it, and all known names in
order.
-/

namespace Winnow

/-- A name that is not among the known ones, with the place where it stood, null when none is known. -/
structure UnknownOperator where
  name : String
  known : List String
  place : Value := .null

/-- Texts in ascending order. -/
def sortedTexts (texts : List String) : List String :=
  texts.mergeSort fun s t => !(t < s)

namespace UnknownOperator

/-- The known names most like the name in capital letters. -/
def suggestions (u : UnknownOperator) : List String :=
  Text.closest u.known (Text.capitals u.name.toList)

/-- The wording of the report, if its place has a text. A place that is empty is not mentioned. -/
def message? (u : UnknownOperator) : Option String := do
  let place ← if u.place.isGiven then u.place.plainText.map (" at " ++ ·) else some ""
  let hint := if u.suggestions.isEmpty then "" else " Did you mean: " ++ ", ".intercalate u.suggestions ++ "?"
  return "Unknown filter operator '" ++ u.name ++ "'" ++ place ++ "." ++ hint ++ " Valid operators: " ++
    ", ".intercalate (sortedTexts u.known)

/-- The report as plain data. -/
def report (u : UnknownOperator) : Value :=
  .object [("error", .text "OPERATOR_NOT_FOUND"), ("operator", .text u.name),
    ("path", u.place), ("suggestions", .list (u.suggestions.map .text)),
    ("valid_operators", .list ((sortedTexts u.known).map .text))]

/-- The report on a name that none of the operators has. -/
def ofName (name : String) (place : Value) : UnknownOperator :=
  { name, known := Operator.every.map Operator.name, place }

end UnknownOperator

end Winnow
