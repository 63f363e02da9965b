import Winnow.Problem
import Winnow.UnknownOperator
import Winnow.Value.Encode
import Winnow.Value.JsonText
import Winnow.Value.Order

/-!
# Faults

Why an operation has no answer. Faults of the filter language carry a report as plain data; the others say that a value
is not what the operation needs.
-/

namespace Winnow

/-- The forms of numbers that need not be finite. -/
inductive NumberForm where
  | binary
  | decimal
  deriving DecidableEq

/-- Why an operation has no answer. -/
inductive Fault where
  /-- A filter given as data, or a part of one, has a problem. -/
  | problem (problem : Problem)
  /-- A name is no operator. -/
  | unknownOperator (unknown : UnknownOperator)
  /-- No rule of translation handles the operator of a condition. -/
  | unsupported (condition : Condition)
  /-- Conditions are nested more deeply than a translation allows. -/
  | nestedTooDeep (depth limit : Int)
  /-- A value is no relative date. -/
  | relativeDate (message : String)
  /-- The registry holds no strategy for an operator. -/
  | unregistered (op : Operator)
  /-- A sequence that should be a field with its condition has another number of items. -/
  | notAPair (size : Nat)
  /-- A sequence that should be a key with its value, at a position among others, has another number of items. -/
  | notAnEntry (position size : Nat)
  /-- A whole number in JSON has too many digits. -/
  | integerTooLong (digits : Nat)
  /-- A whole number has too many digits to be written. -/
  | integerUnwritable
  /-- A JSON text is nested too deeply. -/
  | textTooDeep
  /-- A NaN or an infinity stands where a whole number is made of a number. -/
  | notWhole (form : NumberForm) (isNaN : Bool)
  /-- A number of days does not fit a machine integer. -/
  | daysTooLarge
  /-- A number of days is beyond the longest distance in time. -/
  | daysBeyondRange (days : Nat)
  /-- A date is before year 1 or after year 9999. -/
  | outOfCalendar
  /-- A filter has no parts of these names. -/
  | unknownParts (names : List String)
  /-- A value is of a kind that an operation does not take. -/
  | kindMismatch
  /-- A value lacks the part that an operation asks of it. -/
  | missingPart
  /-- A position is outside a sequence. -/
  | noSuchPosition
  /-- A decimal is compared with a NaN. -/
  | undefinedComparison

namespace Fault

/-- The fault that a problem is: an unknown operator has a report of its own. -/
def ofProblem (p : Problem) : Fault :=
  match p.cause with
  | .unknownOperator name => .unknownOperator (.ofName name (.text p.place.text))
  | _ => .problem p

/-- The fault that a missing order is. -/
def ofOrder : OrderFault → Fault
  | .incomparable => .kindMismatch
  | .undefined => .undefinedComparison

/-- What a test that may be refused has told. -/
def ofTest : Option Bool → Except Fault Bool
  | some answer => .ok answer
  | none => .error .undefinedComparison

/-- What is made of texts, a fault when one of them cannot be written. -/
def ofWriting {α : Type} : Option α → Except Fault α
  | some written => .ok written
  | none => .error .integerUnwritable

@[simp] theorem ofWriting_some {α : Type} (written : α) : ofWriting (some written) = .ok written := rfl

/-- What can be written is there. -/
theorem eq_some_of_ofWriting {α : Type} {written? : Option α} {written : α} (h : ofWriting written? = .ok written) :
    written? = some written := by
  cases written? with
  | some _ => exact congrArg some (Except.ok.inj h)
  | none => cases h

/-- The wording of a fault, `none` for one without a wording of its own or with one that cannot be written. -/
def message? : Fault → Option String
  | problem p => some p.cause.message
  | unknownOperator u => u.message?
  | unsupported c => c.encode.jsonText.map ("Cannot generate Elasticsearch query for: " ++ ·)
  | nestedTooDeep depth limit => do
    return "Condition nesting depth " ++ (← writeInt? depth) ++ " exceeds maximum of " ++ (← writeInt? limit)
  | relativeDate message => some message
  | unregistered op =>
    (Value.operator op).plainText.map ("Unsupported operator for in-memory evaluation: " ++ ·)
  | notAPair size =>
    some (if 2 < size then "too many values to unpack (expected 2)"
      else "not enough values to unpack (expected 2, got " ++ toString size ++ ")")
  | notAnEntry position size =>
    some ("dictionary update sequence element #" ++ toString position ++ " has length " ++ toString size ++
      "; 2 is required")
  | integerTooLong digits =>
    some ("Exceeds the limit (4300 digits) for integer string conversion: value has " ++ toString digits ++
      " digits; use sys.set_int_max_str_digits() to increase the limit")
  | integerUnwritable =>
    some ("Exceeds the limit (4300 digits) for integer string conversion; use sys.set_int_max_str_digits() to " ++
      "increase the limit")
  | notWhole .binary isNaN => some ("cannot convert float " ++ (if isNaN then "NaN" else "infinity") ++ " to integer")
  | notWhole .decimal isNaN => some ("cannot convert " ++ (if isNaN then "NaN" else "Infinity") ++ " to integer")
  | daysTooLarge => some "Python int too large to convert to C int"
  | daysBeyondRange days => some ("days=" ++ toString days ++ "; must have magnitude <= 999999999")
  | outOfCalendar => some "date value out of range"
  | unknownParts names => some ("Unknown Filter attribute(s): " ++ ", ".intercalate (sortedTexts names))
  | _ => none

/-- A fault that is put into words where it is met: when these cannot be written, that is the fault. -/
def worded (fault : Fault) : Fault :=
  if fault.message?.isSome then fault else .integerUnwritable

theorem worded_cases (fault : Fault) : fault.worded = fault ∨ fault.worded = .integerUnwritable := by
  unfold worded
  split
  · exact .inl rfl
  · exact .inr rfl

theorem worded_nestedTooDeep {depth limit : Int} (hdepth : fitsLimit depth = true) (hlimit : fitsLimit limit = true) :
    (nestedTooDeep depth limit).worded = .nestedTooDeep depth limit := by
  simp [worded, message?, writeInt?_of_fitsLimit hdepth, writeInt?_of_fitsLimit hlimit]

theorem worded_unsupported (c : Condition) :
    (unsupported c).worded = if c.encode.isSpelled then .unsupported c else .integerUnwritable := by
  rw [worded, message?, Option.isSome_map, Value.isSpelled]

/-- The report on an invalid filter as plain data. -/
def invalidReport (message path : Value) : Value :=
  .object [("error", .text "VALIDATION_ERROR"), ("message", message), ("path", path)]

/-- The report on any other failure as plain data. -/
def failureReport (message : String) : Value :=
  .object [("error", .text "FilterError"), ("message", .text message)]

/-- The message of a failure that was given some values: nothing for none, the text of one, the display of several. -/
def failureMessage : List Value → Option String
  | [] => some ""
  | [v] => v.plainText
  | values => (Value.tuple values).display

/-- The report of a fault of the filter language as plain data. -/
def report? : Fault → Option Value
  | problem p => some (invalidReport (.text p.cause.message) (.text p.place.text))
  | unknownOperator u => some u.report
  | unsupported c =>
    some (.object [("error", .text "UNSUPPORTED_OPERATOR"), ("operator", .text c.op.name), ("condition", c.encode)])
  | nestedTooDeep depth limit =>
    some (.object [("error", .text "QUERY_DEPTH_EXCEEDED"), ("depth", .int depth), ("max_depth", .int limit)])
  | _ => none

end Fault

end Winnow
