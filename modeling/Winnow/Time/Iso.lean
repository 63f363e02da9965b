import Winnow.Text.Chars
import Winnow.Time.DateTime

/-!
# Dates and times as text

The extended ISO 8601 form: `2024-06-01`, `08:30:00`, `2024-06-01T08:30:00.500000+05:30`. A time has microseconds only
when it is not a whole second, and an offset has seconds only when it is not a whole minute.
-/

namespace Winnow

/-- A date as text. -/
def Date.isoChars (d : Date) : List Char :=
  Text.padded 4 d.year ++ '-' :: Text.padded 2 d.month ++ '-' :: Text.padded 2 d.day

/-- The microseconds of a time, with the point, unless there are none. -/
def fractionChars (micro : Nat) : List Char :=
  if micro = 0 then [] else '.' :: Text.padded 6 micro

/-- A time of day as text. -/
def TimeOfDay.isoChars (t : TimeOfDay) : List Char :=
  Text.padded 2 t.hour ++ ':' :: Text.padded 2 t.minute ++ ':' :: Text.padded 2 t.second ++ fractionChars t.micro

/-- An offset as text: its sign, hours and minutes, and its seconds and their fraction where there are any. -/
def Offset.isoChars (o : Offset) : List Char :=
  let size := TimeOfDay.ofMicros o.micros.natAbs
  let seconds := if size.second = 0 ∧ size.micro = 0 then [] else ':' :: Text.padded 2 size.second
  (if o.micros < 0 then '-' else '+') :: Text.padded 2 size.hour ++ ':' :: Text.padded 2 size.minute ++ seconds ++
    fractionChars size.micro

/-- An offset as text, nothing for none. -/
def Offset.isoChars? (o : Option Offset) : List Char :=
  (o.map Offset.isoChars).getD []

/-- A date and time as text, with a given character between them. -/
def DateTime.isoCharsWith (separator : Char) (t : DateTime) : List Char :=
  t.date.isoChars ++ separator :: t.time.isoChars ++ Offset.isoChars? t.offset?

/-- A date and time as text. -/
def DateTime.isoChars (t : DateTime) : List Char :=
  t.isoCharsWith 'T'

/-- A time on its own as text. -/
def ClockTime.isoChars (t : ClockTime) : List Char :=
  t.time.isoChars ++ Offset.isoChars? t.offset?

/-- A date as text. -/
def Date.toIso (d : Date) : String :=
  String.ofList d.isoChars

/-- A date and time as text. -/
def DateTime.toIso (t : DateTime) : String :=
  String.ofList t.isoChars

/-- A time on its own as text. -/
def ClockTime.toIso (t : ClockTime) : String :=
  String.ofList t.isoChars

end Winnow
