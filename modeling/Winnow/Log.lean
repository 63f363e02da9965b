import Winnow.Text.Quoted
import Winnow.Value.Display

/-!
# What is recorded along the way

Operations that take a decision leave an event behind, in the order of the decisions. An event worth knowing of is
recorded, with a level and one line of text.
-/

namespace Winnow

/-- How much an event matters. -/
inductive Level where
  | debug
  | warning
  deriving DecidableEq

/-- The name of a level. -/
def Level.name : Level → String
  | debug => "DEBUG"
  | warning => "WARNING"

/-- A decision taken along the way. -/
inductive Event where
  /-- Keys of a filter given as data are not known and left out. -/
  | unknownKeys (keys : List String)
  /-- A field map is asked for the name of a field; an answer without text leaves the field as it is. -/
  | lookedUp (field : String) (mapped : Option String)
  /-- A filter continues after an item. The identifier of the item and the sort field may have no text. -/
  | resumed (idField : String) (shownId sortField : Option String) (direction : Direction)
  /-- A search body is complete. -/
  | built (statements clauses : Nat) (size : Int)
  deriving DecidableEq

/-- Whether the answer of a field map is a name. -/
def isName : Option String → Bool
  | some name => !name.isEmpty
  | none => false

namespace Event

/-- The record of an event: its level and its line. A field that a map has a name for is not worth a record, and an
event whose line cannot be written leaves none. -/
def record? : Event → Option (Level × String)
  | unknownKeys keys => some (.warning, "Ignoring unknown filter keys: " ++ ", ".intercalate keys)
  | lookedUp field mapped =>
    if isName mapped then none
    else
      let shown := (mapped.map Text.quoted).getD "None"
      some (.debug, "Field map returned " ++ shown ++ " for " ++ Text.quoted field ++ "; using it unmapped")
  | resumed idField shownId sortField direction => do
    return (.debug, "Paginating after " ++ idField ++ "=" ++ (← shownId) ++ " (sort=" ++ (← sortField) ++ " " ++
      direction.name ++ ")")
  | built statements clauses size => do
    return (.debug, "Built search body: " ++ toString statements ++ " statement(s), " ++ toString clauses ++
      " sort clause(s), size=" ++ (← writeInt? size))

end Event

end Winnow
