import Winnow.Text.Chars
import Winnow.Time.Iso

/-!
# Dates and times from text

Two readers. The lenient one takes every ISO 8601 spelling of a date, alone or with a time: with or without separators,
by month or by week, with any character between date and time. The canonical one takes a text only when it is the very
form in which its value is written, so that a text that merely looks like a date stays a text.

A null character after a complete time ends it: what stands behind it is not looked at.
-/

namespace Winnow.Iso

/-- The fields of a time as they are read, before any of them is checked. -/
structure ClockFields where
  hour : Nat
  minute : Nat
  second : Nat
  micro : Nat

/-- Whether a text ends here, a null character being an end as well. -/
def atEnd : List Char → Bool
  | [] => true
  | c :: _ => c = '\x00'

/-- How a run of two-digit groups ends: at the end of the text, before a last ASCII character that does not belong to
it, or at the point before a fraction. -/
inductive GroupsEnd where
  | complete
  | leftover
  | fraction (rest : List Char)

/-- Up to a given number of two-digit groups. A colon after the first group demands colons after all of them; a colon
may also stand after the last group, before a fraction. -/
def readGroups : Nat → Option Bool → List Char → Option (List Nat × GroupsEnd)
  | 0, _, cs => some ([], .fraction cs)
  | more + 1, colons?, cs => do
    let (n, rest) ← Text.takeDigits? 2 cs
    match rest with
    | [] => some ([n], .complete)
    | c :: rest =>
      if rest.isEmpty && c.toNat < 128 then some ([n], if c = '\x00' then .complete else .leftover)
      else
        let colons := colons?.getD (c = ':')
        if colons && c = ':' then
          let (ns, tail) ← readGroups more (some colons) rest
          some (n :: ns, tail)
        else if c = '.' || c = ',' then some ([n], .fraction rest)
        else if colons then none
        else
          let (ns, tail) ← readGroups more (some colons) (c :: rest)
          some (n :: ns, tail)

/-- The microseconds of a fraction, and whether something is left after it: six digits count, further ones are
skipped. -/
def readFraction? (cs : List Char) : Option (Nat × Bool) := do
  let places := min 6 cs.length
  let (n, rest) ← Text.takeDigits? places cs
  some (n * Nat.pow 10 (6 - places), !atEnd (rest.dropWhile Char.isDigit))

/-- The fields of a time, and whether something is left after it. -/
def readClock? (cs : List Char) : Option (ClockFields × Bool) := do
  let (ns, tail) ← readGroups 3 none cs
  let (micro, left) ← match tail with
    | .complete => some (0, false)
    | .leftover => some (0, true)
    | .fraction rest => readFraction? rest
  some (⟨ns[0]?.getD 0, ns[1]?.getD 0, ns[2]?.getD 0, micro⟩, left)

/-- Whether a character begins an offset. -/
def beginsOffset (c : Char) : Bool :=
  c = '+' || c = '-' || c = 'Z'

/-- The offset after a time. A distance of less than a second is no distance. -/
def readOffset? : List Char → Option Offset
  | 'Z' :: rest => if atEnd rest then some .utc else none
  | sign :: rest => do
    let (fields, left) ← readClock? rest
    if left then none
    else
      let seconds := (fields.hour * 60 + fields.minute) * 60 + fields.second
      if seconds = 0 then some .utc
      else
        let size : Int := seconds * 1000000 + fields.micro
        Offset.of? (if sign = '-' then -size else size)
  | [] => none

/-- A time of day with the offset that may follow it. -/
def readTime? (cs : List Char) : Option ClockTime := do
  let clock := cs.takeWhile (!beginsOffset ·)
  let zone := cs.dropWhile (!beginsOffset ·)
  let (fields, left) ← readClock? clock
  let time := TimeOfDay.of? fields.hour fields.minute fields.second fields.micro
  if zone.isEmpty then
    if left then none else time.map (⟨·, none⟩)
  else do
    let offset ← readOffset? zone
    time.map (⟨·, some offset⟩)

/-- The date at the beginning of a text, the text being cut where the date ends. -/
def readDate? (cs : List Char) : Option Date := do
  let (year, rest) ← Text.takeDigits? 4 cs
  let dashes := rest.head? = some '-'
  let rest := if dashes then rest.tail else rest
  match rest with
  | 'W' :: rest =>
    let (week, rest) ← Text.takeDigits? 2 rest
    if rest.isEmpty then Date.ofWeek? year week 1
    else
      let rest ← if dashes then Text.dropPrefix? ['-'] rest else some rest
      let (day, _) ← Text.takeDigits? 1 rest
      Date.ofWeek? year week day
  | rest =>
    let (month, rest) ← Text.takeDigits? 2 rest
    let rest ← if dashes then Text.dropPrefix? ['-'] rest else some rest
    let (day, _) ← Text.takeDigits? 2 rest
    Date.of? year month day

/-- The length of the date at the beginning of a text. The fifth and sixth characters tell the form; in a week form the
characters after the week tell whether a day follows. -/
def dateLength? (cs : List Char) : Option Nat :=
  if cs.length = 7 then some 7
  else if cs[4]? = some '-' then
    if cs[5]? = some 'W' then
      if cs[8]? = some '-' then
        if cs.length = 9 then none
        else if (cs[10]?.map Char.isDigit).getD false then some 8
        else some 10
      else some 8
    else some 10
  else if cs[4]? = some 'W' then
    let digits := ((cs.drop 7).takeWhile Char.isDigit).length
    if digits < 2 then some (7 + digits)
    else if digits % 2 = 1 then some 7
    else some 8
  else some 8

/-- The lenient reader. A date alone stands for its midnight. -/
def readDateTime? (cs : List Char) : Option DateTime := do
  if cs.length < 7 then none
  else
    let length ← dateLength? cs
    let date ← readDate? (cs.take length)
    match cs.drop length with
    | [] => some ⟨date, .midnight, none⟩
    | _ :: clock =>
      let clock ← readTime? clock
      some ⟨date, clock.time, clock.offset?⟩

end Iso

end Winnow
