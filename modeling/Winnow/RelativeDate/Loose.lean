import Winnow.Number.Numeral
import Winnow.RelativeDate

/-!
# A loose reader of relative dates

The reader of relative dates that a filter is read with when no other one is given. It takes either spelling of the key,
and any value that holds a whole number: a number without a fraction, or a loose numeral in a text.
-/

namespace Winnow

/-- What can be wrong with a relative date. -/
inductive DaysFault where
  | missing
  | notObject
  | notInteger
  | notNumeral
  | loneUnit
  | tooLong
  | notFinite
  | fractional
  | negative
  deriving DecidableEq

/-- The wording of a fault of a relative date. -/
def DaysFault.message : DaysFault → String
  | missing => "Field required"
  | notObject => "Input should be a valid dictionary or instance of DaysAgo"
  | notInteger => "Input should be a valid integer"
  | notNumeral => "Input should be a valid integer, unable to parse string as an integer"
  | loneUnit => "Input should be a valid string, unable to parse raw data as a unicode string"
  | tooLong => "Unable to parse input string as an integer, exceeded maximum size"
  | notFinite => "Input should be a finite number"
  | fractional => "Input should be a valid integer, got a number with a fractional part"
  | negative => "Input should be greater than or equal to 0"

namespace RelativeDate

/-- The whole number that a value holds: a number without a fraction, or a loose numeral. Floating-point numbers must be
less than `2 ^ 63` in size. A member of a family counts by its content only when that is a whole number. -/
def readInt (v : Value) : Except DaysFault Int :=
  match v with
  | .int n => .ok n
  | .bool b => .ok (if b then 1 else 0)
  | .float x =>
    match x.truncate? with
    | none => .error .notFinite
    | some n =>
      if !x.isWhole then .error .fractional
      else if n.natAbs < Nat.pow 2 63 then .ok n
      else .error .tooLong
  | .decimal x =>
    match x.truncate? with
    | none => .error .notFinite
    | some n => if x.isWhole then .ok n else .error .fractional
  | .symbol _ _ (.int n) => .ok n
  | .symbol .. => .error .tooLong
  | v => match v.asText? with
    | none => .error .notInteger
    | some s =>
      if Text.holdsLone s.toList then .error .loneUnit
      else (Numeral.read s.toList).mapError fun
        | .notANumeral => .notNumeral
        | .tooLong => .tooLong

/-- The number of days that a value holds. -/
def readDays (v : Value) : Except DaysFault Nat := do
  let n ← readInt v
  if n < 0 then throw .negative
  return n.toNat

/-- The number of days of a relative date given as data, under either spelling of its key. -/
def read : Value → Except DaysFault Nat
  | .daysAgo days => .ok days
  | .object entries => match entries.lookup "daysAgo", entries.lookup "days_ago" with
    | some v, _ => readDays v
    | none, some v => readDays v
    | none, none => .error .missing
  | _ => .error .notObject

/-- The loose reader of relative dates. -/
def readLoosely : Reader := fun entries =>
  (read (.object entries)).mapError DaysFault.message

/-- The loose reader reads every relative date that is written. -/
theorem readsWritten_readLoosely : readLoosely.ReadsWritten :=
  fun _ => rfl

end RelativeDate

end Winnow
