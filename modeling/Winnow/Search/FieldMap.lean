import Winnow.Logged
import Winnow.Path

/-!
# Names of indexed fields

A field map gives the name under which a field is indexed. A field that it has no name for keeps its own, and that is
recorded.
-/

namespace Winnow

/-- The name under which a field is indexed, if the map has one. -/
abbrev FieldMap := String → Option String

namespace FieldMap

/-- Every field under its own name. -/
def identity : FieldMap := some

/-- The names listed, and none for any other field. -/
def ofEntries (entries : List (String × Option String)) : FieldMap :=
  fun field => (entries.lookup field).join

/-- Every field under its own name with a text in front. -/
def prefixedBy (start : String) : FieldMap :=
  fun field => some (start ++ field)

/-- One answer for every field. -/
def constant (answer : Option String) : FieldMap :=
  fun _ => answer

/-- Renamed fields under their new names, text fields under that of their keyword part, and all others under their
own. -/
def ofRenames (renames : List (String × Option String)) (keywordFields : List String) (suffix : String) : FieldMap :=
  fun field =>
    match renames.lookup field with
    | some name => name
    | none => if keywordFields.contains field then some (Path.join field suffix) else some field

/-- The name to use for a field: the answer of the map, or the field itself when that is no name. -/
def nameOf (m : FieldMap) (field : String) : String :=
  match m field with
  | some name => if name.isEmpty then field else name
  | none => field

/-- The name to use for a field, the question being recorded. -/
def apply (m : FieldMap) (field : String) : Logged String := do
  .record (.lookedUp field (m field))
  return m.nameOf field

end FieldMap

end Winnow
