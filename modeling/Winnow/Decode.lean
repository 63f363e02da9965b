import Winnow.Filter
import Winnow.Json
import Winnow.Logged
import Winnow.Path
import Winnow.RelativeDate.Loose
import Winnow.Walk

/-!
# Filters from plain data

Reading a filter back from the data that it is written as, and telling what is wrong with data that is no filter. Fields
may be confined to a list of allowed paths, those inside a collection being checked with the path of the collection in
front, and conditions may be nested only to a given depth.
-/

namespace Winnow

/-- What a filter given as data may hold: the allowed field paths, all when there is no list, the greatest depth of
nested conditions, and what is a relative date. -/
structure DecodeOptions where
  allowedFields : Option (List String) := none
  maxDepth : Int := 32
  readDays : RelativeDate.Reader := RelativeDate.readLoosely

namespace DecodeOptions

/-- Whether a field path is allowed. -/
def allows (o : DecodeOptions) (path : String) : Bool :=
  match o.allowedFields with
  | some fields => fields.contains path
  | none => true

/-- How many levels of conditions there is room for, the outermost one included. -/
def room (o : DecodeOptions) : Nat :=
  (o.maxDepth + 1).toNat

end DecodeOptions

namespace Decode

/-- The operators whose operand is read as a date when it is the canonical text of one. -/
def readsDates : Comparison → Bool
  | .startsWith => false
  | _ => true

/-- The operand of a comparison. -/
def scalar (o : DecodeOptions) (op : Comparison) (place : Place) (value : Value) : Walk (Option Condition) :=
  match op, value with
  | .bound b, .object entries => match o.readDays entries with
    | .ok days => return some (.within b (.daysAgo days))
    | .error message => .report place (.relativeDate message) none
  | _, .object _ => .report place (.notAScalar op) none
  | _, .list _ => .report place (.notAScalar op) none
  | _, .text s => return some (.compare op (if readsDates op then (readCanonical? s).getD (.text s) else .text s))
  | _, v => return some (.compare op v)

/-- How a condition is read: from its data and place, on a field path. -/
abbrev ConditionReader := Value → Place → String → Walk (Option Condition)

/-- One field condition of a query, `outer` being the path of the collection that the query is about. -/
def leaf (o : DecodeOptions) (readCondition : ConditionReader) (outer : Option String) (place : Place)
    (data : Value) : Walk (Option (String × Condition)) :=
  match data with
  | .object entries =>
    match (Value.lookup "field" entries).asText? with
    | none => .reportShown place .fieldMissing data.display none
    | some field =>
      if field.isEmpty then .reportShown place .fieldMissing data.display none
      else
        let path := match outer with
          | some outer => Path.join outer field
          | none => field
        if !o.allows path then .report place (.fieldNotAllowed path) none
        else do return (← readCondition data place path).map (field, ·)
  | _ => .report place (.notAnObject data.kind) none

/-- A query. Field conditions with a problem are left out. -/
def query (o : DecodeOptions) (readCondition : ConditionReader) (outer : Option String) (place : Place)
    (data : Value) : Walk (Option Query) :=
  match data with
  | .list items => do
    let pairs ← Walk.each (fun i item => leaf o readCondition outer (place ++ [.index i]) item) items
    return some (pairs.filterMap id)
  | _ => .report place .queryNotAList none

/-- A condition, with room for a number of levels of conditions. -/
def condition (o : DecodeOptions) : Nat → ConditionReader
  | 0, _, place, _ => .reportShown place .nestedTooDeep (writeInt? o.maxDepth) none
  | room + 1, data, place, path =>
    match data with
    | .object entries =>
      match (Value.lookup "op" entries).asText? with
      | none => .report place .operatorMissing none
      | some name =>
        if name.isEmpty then .report place .operatorMissing none
        else
          let value := Value.lookup "value" entries
          let inner := place ++ [.key "value"]
          match Operator.ofText? name with
          | none => .report place (.unknownOperator name) none
          | some (.comparison op) => scalar o op inner value
          | some (.combinator op) => match value with
            | .list items => do
              let members ← Walk.each (fun i item => condition o room item (inner ++ [.index i]) path) items
              return some (.combine op ((members.filterMap id).map .condition))
            | _ => .report inner (.membersNotAList op) none
          | some (.membership op) => do
            let nested ← query o (condition o room) (some path) inner value
            return nested.map fun q => .nested op (.query q)
    | _ => .report place (.notAnObject data.kind) none

/-- A statement. Queries with a problem are left out. -/
def statement (o : DecodeOptions) (place : Place) (data : Value) : Walk (Option (List Query)) :=
  match data with
  | .list items => do
    let queries ← Walk.each (fun i item => query o (condition o o.room) none (place ++ [.index i]) item) items
    return some (queries.filterMap id)
  | _ => .report place .statementNotAList none

/-- The statements. Those with a problem are left out. -/
def statements (o : DecodeOptions) (entries : List (String × Value)) : Walk (List (List Query)) :=
  let place : Place := [.key "statements"]
  match entries.lookup "statements" with
  | none => return []
  | some (.list items) => do
    return (← Walk.each (fun i item => statement o (place ++ [.index i]) item) items).filterMap id
  | some _ => .report place .statementsNotAList []

/-- The entries of the sort; none when it is not given. -/
def sortEntries (entries : List (String × Value)) : Walk (List (String × Value)) :=
  match Value.lookup "sort" entries with
  | .object sort => return sort
  | v => if v.isGiven then .report [.key "sort"] .sortNotAnObject [] else return []

/-- One of the names in a sort: a text or null. -/
def sortName (sort : List (String × Value)) (key : String) : Walk Value :=
  match Value.lookup key sort with
  | .null => return .null
  | v => if v.asText?.isSome then return v else .report [.key "sort", .key key] (.sortKeyNotText key) v

/-- The direction of a sort, ascending when it is not given. -/
def sortDirection (sort : List (String × Value)) : Walk Direction :=
  let v := Value.lookup "direction" sort
  if v.isGiven then match Direction.named? v with
    | some d => return d
    | none => .reportShown Direction.place .badDirection v.display .asc
  else return .asc

/-- The limit, a positive whole number, ten when it is not given. -/
def limit (entries : List (String × Value)) : Walk Value :=
  match entries.lookup "limit" with
  | none => return .int 10
  | some v => if isPositive v then return v else .reportShown [.key "limit"] .badLimit v.display v
where
  isPositive : Value → Bool
    | .int n => 1 ≤ n
    | _ => false

/-- The keys of a filter. -/
def knownKeys : List String :=
  ["statements", "sort", "limit"]

/-- The keys of data that are no keys of a filter. -/
def unknownKeys : Value → List String
  | .object entries => sortedTexts ((entries.map (·.1)).filter fun key => !knownKeys.contains key)
  | _ => []

/-- A filter; of data that is no object, only that is told. -/
def filter (o : DecodeOptions) (data : Value) : Walk (Option Filter) :=
  match data with
  | .object entries => do
    let statements ← statements o entries
    let sort ← sortEntries entries
    let sortField ← sortName sort "field_id"
    let subId ← sortName sort "sub_id"
    let subProp ← sortName sort "sub_prop"
    let direction ← sortDirection sort
    let limit ← limit entries
    return some {
      statements := Filter.statementsOf statements, sortField, subId, subProp, direction, limit }
  | _ => .report [] (.notAnObject data.kind) none

/-- The record of unknown keys, if there are any. -/
def noteUnknownKeys (data : Value) : Logged Unit :=
  match unknownKeys data with
  | [] => return ()
  | keys => .record (.unknownKeys keys)

end Decode

namespace Filter

/-- The filter that plain data is, or the first problem with it. -/
def decode (o : DecodeOptions) (data : Value) : Logged Filter := do
  Decode.noteUnknownKeys data
  match Decode.filter o data .failFast with
  | .ok (some f, _) => return f
  | .ok (none, _) => .fail .missingPart
  | .error fault => .fail fault

/-- All the problems of plain data that should be a filter, none when it is one. -/
def problems (o : DecodeOptions) (data : Value) : Logged (List Problem) := do
  Decode.noteUnknownKeys data
  match Decode.filter o data .collect with
  | .ok (_, noted) => return noted
  | .error fault => .fail fault

/-- The filter that a JSON text is. -/
def decodeText (o : DecodeOptions) (text : String) : Logged Filter :=
  match Json.read text with
  | .error (.malformed message position) => .fail (.problem ⟨[], .badJson (Json.locate text message position)⟩)
  | .error (.integerTooLong digits) => .fail (.integerTooLong digits)
  | .error .tooDeep => .fail .textTooDeep
  | .ok (.object entries) => decode o (.object entries)
  | .ok _ => .fail (.problem ⟨[], .rootNotAnObject⟩)

end Filter

end Winnow
