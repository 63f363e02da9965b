import Winnow.Operator

/-!
# Problems in a filter

What can be wrong with a filter given as data, and where. A place is the way from the root of the data down to the part
that is wrong; a problem is a cause at a place. A problem is shown as one line, the place before the message.
-/

namespace Winnow

/-- One step down into data. -/
inductive Step where
  | key (name : String)
  | index (i : Nat)
  deriving DecidableEq

/-- The way from the root of the data to one of its parts. -/
abbrev Place := List Step

namespace Place

/-- The text of the steps after the first: keys after a point, positions in brackets. -/
def tailText : Place → String
  | [] => ""
  | .key name :: rest => "." ++ name ++ tailText rest
  | .index i :: rest => "[" ++ toString i ++ "]" ++ tailText rest

/-- The text of a place. -/
def text : Place → String
  | [] => "<root>"
  | .key name :: rest => name ++ tailText rest
  | .index i :: rest => "[" ++ toString i ++ "]" ++ tailText rest

end Place

/-- What can be wrong with a filter. Values that were not expected are carried as they are shown. -/
inductive Cause where
  | notAnObject (kind : String)
  | statementsNotAList
  | statementNotAList
  | queryNotAList
  | fieldMissing (shown : String)
  | fieldNotAllowed (path : String)
  | nestedTooDeep (limit : String)
  | operatorMissing
  | unknownOperator (name : String)
  | membersNotAList (op : Combinator)
  | relativeDate (message : String)
  | notAScalar (op : Comparison)
  | sortNotAnObject
  | sortKeyNotText (key : String)
  | badDirection (shown : String)
  | badLimit (shown : String)
  | badJson (message : String)
  | rootNotAnObject
  | noIdentifier (field : String)
  deriving DecidableEq

/-- The wording of a cause. -/
def Cause.message : Cause → String
  | notAnObject kind => "Expected a dict, got " ++ kind
  | statementsNotAList => "'statements' must be a list"
  | statementNotAList => "A statement must be a list of queries"
  | queryNotAList => "A query must be a list of field conditions"
  | fieldMissing shown => "Field condition missing 'field': " ++ shown
  | fieldNotAllowed path => "Field '" ++ path ++ "' is not in the allowed fields list"
  | nestedTooDeep limit => "Condition nesting exceeds maximum depth " ++ limit
  | operatorMissing => "Missing or empty 'op' key"
  | unknownOperator name => "unknown operator '" ++ name ++ "'"
  | membersNotAList op => "'" ++ op.name ++ "' requires a list of conditions"
  | relativeDate message => "Invalid relative date: " ++ message
  | notAScalar op => "'" ++ op.name ++ "' requires a scalar value"
  | sortNotAnObject => "'sort' must be an object"
  | sortKeyNotText key => "'" ++ key ++ "' must be a string"
  | badDirection shown => "Sort direction must be ASC or DESC, got " ++ shown
  | badLimit shown => "Limit must be a positive integer, got " ++ shown
  | badJson message => "Invalid JSON: " ++ message
  | rootNotAnObject => "Top-level JSON value must be an object"
  | noIdentifier field => "Cannot paginate after an item without '" ++ field ++ "'"

/-- A cause at a place. -/
structure Problem where
  place : Place
  cause : Cause
  deriving DecidableEq

/-- A problem as one line. -/
def Problem.line (p : Problem) : String :=
  p.place.text ++ ": " ++ p.cause.message

end Winnow
