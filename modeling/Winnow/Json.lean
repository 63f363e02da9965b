import Winnow.Number.Written
import Winnow.Text.Chars
import Winnow.Text.LoneUnit
import Winnow.Value

/-!
# JSON texts

A reader of JSON that keeps the order of keys. Beyond the standard it takes the words for NaN and infinity, and of two
entries with one key the later value in the earlier place. A text that is not JSON is refused with what was expected and
where, and one whose lists and objects are nested beyond a limit is refused as soon as the limit is passed.
-/

namespace Winnow.Json

/-- Why a text is refused: its form is wrong at a position, a whole number has too many digits, or its lists and objects
are nested too deeply. -/
inductive Refusal where
  | malformed (message : String) (position : Nat)
  | integerTooLong (digits : Nat)
  | tooDeep
  deriving DecidableEq

/-- What remains of a text, and the position where it begins. -/
structure Cursor where
  position : Nat
  rest : List Char

namespace Cursor

/-- A cursor some characters further on. -/
def skip (c : Cursor) (count : Nat) : Cursor :=
  ⟨c.position + count, c.rest.drop count⟩

/-- Whether a character may stand between the parts of a text. -/
def isBlank (c : Char) : Bool :=
  c = ' ' || c = '\t' || c = '\n' || c = '\r'

/-- A cursor behind the blanks at its place. -/
def skipBlanks (c : Cursor) : Cursor :=
  c.skip (c.rest.takeWhile isBlank).length

/-- The refusal at the place of a cursor. -/
def refuse {α : Type} (c : Cursor) (message : String) : Except Refusal α :=
  .error (.malformed message c.position)

end Cursor

/-- The value of a hexadecimal digit. -/
def hexValue? (c : Char) : Option Nat :=
  if c.isDigit then some (c.toNat - 48)
  else if 'a' ≤ c ∧ c ≤ 'f' then some (c.toNat - 87)
  else if 'A' ≤ c ∧ c ≤ 'F' then some (c.toNat - 55)
  else none

/-- The number written by four hexadecimal digits. -/
def hexUnit? (a b c d : Char) : Option Nat := do
  return ((← hexValue? a) * 16 + (← hexValue? b)) * 256 + (← hexValue? c) * 16 + (← hexValue? d)

/-- The character that a letter after a backslash stands for. -/
def escaped? : Char → Option Char
  | '"' => some '"'
  | '\\' => some '\\'
  | '/' => some '/'
  | 'b' => some '\x08'
  | 'f' => some '\x0c'
  | 'n' => some '\n'
  | 'r' => some '\r'
  | 't' => some '\t'
  | _ => none

/-- The character of a unit; a unit that is none on its own is held as a lone one. -/
def unitChar (unit : Nat) : Char :=
  if Text.isHalf unit then Text.loneChar unit else Char.ofNat unit

/-- Whether a unit is the first of a pair. -/
def isHighUnit (unit : Nat) : Bool :=
  0xD800 ≤ unit && unit < 0xDC00

/-- The character of a pair of units, if the second one is the second of a pair. -/
def pairChar? (high low : Nat) : Option Char :=
  if 0xDC00 ≤ low ∧ low < 0xE000 then some (Char.ofNat (0x10000 + (high - 0xD800) * 0x400 + (low - 0xDC00))) else none

/-- A character in front of what is read after it. -/
def consRead (c : Char) (read : Except Refusal (List Char × Cursor)) : Except Refusal (List Char × Cursor) :=
  read.map fun (cs, cursor) => (c :: cs, cursor)

/-- The unit of a numbered escape at the beginning of a text, when there is one; its digits may be wrong. -/
def escapedUnit? : List Char → Option (Option Nat)
  | '\\' :: 'u' :: a :: b :: c :: d :: _ :: _ => some (hexUnit? a b c d)
  | _ => none

/-- The characters of a string up to its closing quote; `start` is the position of the opening one. A numbered escape
has to be followed by a further character, and a first unit of a pair takes in the second one behind it. -/
def readString (start position : Nat) : List Char → Except Refusal (List Char × Cursor)
  | [] => .error (.malformed "Unterminated string starting at" start)
  | '"' :: rest => .ok ([], ⟨position + 1, rest⟩)
  | ['\\'] => .error (.malformed "Unterminated string starting at" start)
  | '\\' :: 'u' :: a :: b :: c :: d :: next :: rest =>
    match hexUnit? a b c d with
    | none => .error (.malformed "Invalid \\uXXXX escape" (position + 1))
    | some unit =>
      match isHighUnit unit, escapedUnit? (next :: rest) with
      | true, some none => .error (.malformed "Invalid \\uXXXX escape" (position + 7))
      | true, some (some low) =>
        match pairChar? unit low with
        | some char => consRead char (readString start (position + 12) (rest.drop 5))
        | none => consRead (unitChar unit) (readString start (position + 6) (next :: rest))
      | _, _ => consRead (unitChar unit) (readString start (position + 6) (next :: rest))
  | '\\' :: c :: rest =>
    if c = 'u' then .error (.malformed "Invalid \\uXXXX escape" (position + 1))
    else match escaped? c with
      | some char => consRead char (readString start (position + 2) rest)
      | none => .error (.malformed "Invalid \\escape" position)
  | c :: rest =>
    if c.toNat < 32 then .error (.malformed "Invalid control character at" position)
    else consRead c (readString start (position + 1) rest)
termination_by cs => cs.length
decreasing_by all_goals simp <;> omega

/-- A numeral in its parts: sign, whole digits, and the fraction and the exponent where there are any. -/
structure Numeral where
  negative : Bool
  whole : List Char
  fraction : List Char
  exponent? : Option Int

/-- The digits at the beginning of a text. -/
def leadingDigits (cs : List Char) : List Char :=
  cs.takeWhile Char.isDigit

/-- The exponent at the beginning of a text, and how many characters it takes. -/
def readExponent? : List Char → Option (Int × Nat)
  | mark :: rest =>
    if mark = 'e' ∨ mark = 'E' then
      let negative := rest.head? = some '-'
      let signed := negative || rest.head? = some '+'
      let digits := leadingDigits (if signed then rest.tail else rest)
      if digits.isEmpty then none
      else (Text.readDigits digits).map fun n =>
        (if negative then -(n : Int) else n, 1 + (if signed then 1 else 0) + digits.length)
    else none
  | [] => none

/-- The numeral at the beginning of a text, and how many characters it takes. -/
def readNumeral? (cs : List Char) : Option (Numeral × Nat) :=
  let negative := cs.head? = some '-'
  let body := if negative then cs.tail else cs
  let digits := leadingDigits body
  if digits.isEmpty then none
  else
    let whole := if digits.head? = some '0' then ['0'] else digits
    let rest := body.drop whole.length
    let fraction := if rest.head? = some '.' then leadingDigits rest.tail else []
    let fractionSize := if fraction.isEmpty then 0 else fraction.length + 1
    let size := (if negative then 1 else 0) + whole.length + fractionSize
    match readExponent? (rest.drop fractionSize) with
    | some (exponent, exponentSize) => some (⟨negative, whole, fraction, some exponent⟩, size + exponentSize)
    | none => some (⟨negative, whole, fraction, none⟩, size)

/-- The number of a numeral: whole without fraction and exponent, and floating-point with either. -/
def Numeral.toValue (n : Numeral) : Except Refusal Value :=
  if n.fraction.isEmpty && n.exponent?.isNone then
    if digitLimit < n.whole.length then .error (.integerTooLong n.whole.length)
    else
      let size : Int := (Text.readDigits n.whole).getD 0
      .ok (.int (if n.negative then -size else size))
  else
    let digits := (Text.readDigits (n.whole ++ n.fraction)).getD 0
    .ok (.float (.ofDecimal n.negative digits (n.exponent?.getD 0 - n.fraction.length)))

/-- The words that are values. -/
def words : List (String × Value) :=
  [("null", .null), ("true", .bool true), ("false", .bool false), ("NaN", .float .nan),
    ("Infinity", .float (.infinite false)), ("-Infinity", .float (.infinite true))]

/-- The word at a cursor, and how many characters it takes. -/
def readWord? (cs : List Char) : Option (Value × Nat) :=
  (words.find? fun word => Text.startsWith word.1.toList cs).map fun word => (word.2, word.1.length)

mutual

/-- The value at a cursor, with room for a number of lists and objects in one another; the fuel is more than the
characters left. -/
def readValue (fuel room : Nat) (c : Cursor) : Except Refusal (Value × Cursor) :=
  match fuel with
  | 0 => c.refuse "Expecting value"
  | fuel + 1 =>
    match c.rest with
    | '"' :: rest =>
      (readString c.position (c.position + 1) rest).map fun (cs, after) => (.text (String.ofList cs), after)
    | '\x7b' :: _ =>
      let inner := (c.skip 1).skipBlanks
      if room = 0 then .error .tooDeep
      else if inner.rest.head? = some '\x7d' then .ok (.object [], inner.skip 1)
      else (readEntries fuel (room - 1) inner []).map fun (entries, after) => (.object entries, after)
    | '[' :: _ =>
      let inner := (c.skip 1).skipBlanks
      if room = 0 then .error .tooDeep
      else if inner.rest.head? = some ']' then .ok (.list [], inner.skip 1)
      else (readItems fuel (room - 1) inner).map fun (items, after) => (.list items, after)
    | cs => match readWord? cs with
      | some (v, size) => .ok (v, c.skip size)
      | none => match readNumeral? cs with
        | some (n, size) => n.toValue.map fun v => (v, c.skip size)
        | none => c.refuse "Expecting value"

/-- The items of a list from a cursor on, to the closing bracket. -/
def readItems (fuel room : Nat) (c : Cursor) : Except Refusal (List Value × Cursor) :=
  match fuel with
  | 0 => c.refuse "Expecting value"
  | fuel + 1 => do
    let (v, after) ← readValue fuel room c
    let after := after.skipBlanks
    match after.rest.head? with
    | some ']' => return ([v], after.skip 1)
    | some ',' => do
      let (items, last) ← readItems fuel room (after.skip 1).skipBlanks
      return (v :: items, last)
    | _ => after.refuse "Expecting ',' delimiter"

/-- The entries of an object from a cursor on, to the closing brace, after those before them. -/
def readEntries (fuel room : Nat) (c : Cursor) (before : List (String × Value)) :
    Except Refusal (List (String × Value) × Cursor) :=
  match fuel with
  | 0 => c.refuse "Expecting value"
  | fuel + 1 => do
    if c.rest.head? ≠ some '"' then c.refuse "Expecting property name enclosed in double quotes"
    else
      let (key, after) ← readString c.position (c.position + 1) c.rest.tail
      let after := after.skipBlanks
      if after.rest.head? ≠ some ':' then after.refuse "Expecting ':' delimiter"
      else
        let (v, after) ← readValue fuel room (after.skip 1).skipBlanks
        let entries := Value.insertEntry (String.ofList key) v before
        let after := after.skipBlanks
        match after.rest.head? with
        | some '\x7d' => return (entries, after.skip 1)
        | some ',' => readEntries fuel room (after.skip 1).skipBlanks entries
        | _ => after.refuse "Expecting ',' delimiter"

end

/-- The greatest number of lists and objects in one another. -/
def nestingLimit : Nat := 990

/-- The value of a JSON text. -/
def read (text : String) : Except Refusal Value :=
  let start : Cursor := ⟨0, text.toList⟩
  if text.toList.head? = some '\ufeff' then start.refuse "Unexpected UTF-8 BOM (decode using utf-8-sig)"
  else do
    let (v, after) ← readValue (2 * text.length + 2) nestingLimit start.skipBlanks
    let last := after.skipBlanks
    if last.rest.isEmpty then return v else last.refuse "Extra data"

/-- A message about a position of a text, with its line, column and count of characters before it. -/
def locate (text : String) (message : String) (position : Nat) : String :=
  let before := text.toList.take position
  let line := before.count '\n' + 1
  let column := (before.reverse.takeWhile (· != '\n')).length + 1
  message ++ ": line " ++ toString line ++ " column " ++ toString column ++ " (char " ++ toString position ++ ")"

end Winnow.Json
