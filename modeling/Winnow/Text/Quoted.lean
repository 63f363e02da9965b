import Winnow.Text.LoneUnit
import Winnow.Text.Printable

/-!
# Texts in quotes

How a text is displayed inside a message: in single quotes, or in double quotes when it holds a single quote and no
double one, with escapes for the quote, the backslash and what is not printable. And how a text is written as JSON in
ASCII.
-/

namespace Winnow.Text

/-- The lower-case hexadecimal digits of a number, zeros in front. -/
def hexDigits : Nat → Nat → List Char
  | 0, _ => []
  | width + 1, n => hexDigits width (n / 16) ++ [Nat.digitChar (n % 16)]

/-- The escape for a unit. -/
def unitEscape (unit : Nat) : List Char :=
  '\\' :: 'u' :: hexDigits 4 unit

/-- One character inside a quoted display. -/
def displayChar (quote : Char) (c : Char) : List Char :=
  if c = quote || c = '\\' then ['\\', c]
  else if c = '\t' then ['\\', 't']
  else if c = '\n' then ['\\', 'n']
  else if c = '\r' then ['\\', 'r']
  else if isPrintable c then [c]
  else if c.toNat < 0x100 then '\\' :: 'x' :: hexDigits 2 c.toNat
  else match loneUnit? c with
    | some unit => unitEscape unit
    | none => if c.toNat < 0x10000 then unitEscape c.toNat else '\\' :: 'U' :: hexDigits 8 c.toNat

/-- The quote that a display uses: the double one only for a text with a single quote and without a double one. -/
def displayQuote (cs : List Char) : Char :=
  if cs.contains '\'' && !cs.contains '"' then '"' else '\''

/-- A text as it is displayed in quotes. -/
def quoted (text : String) : String :=
  let quote := displayQuote text.toList
  String.ofList (quote :: text.toList.flatMap (displayChar quote) ++ [quote])

/-- One character inside a JSON string, in ASCII: a character outside the first plane becomes a pair of units. -/
def jsonChar (c : Char) : List Char :=
  if c = '"' then ['\\', '"']
  else if c = '\\' then ['\\', '\\']
  else if c = '\n' then ['\\', 'n']
  else if c = '\r' then ['\\', 'r']
  else if c = '\t' then ['\\', 't']
  else if c.toNat = 8 then ['\\', 'b']
  else if c.toNat = 12 then ['\\', 'f']
  else if 32 ≤ c.toNat ∧ c.toNat < 127 then [c]
  else match loneUnit? c with
    | some unit => unitEscape unit
    | none =>
      if c.toNat < 0x10000 then unitEscape c.toNat
      else unitEscape (0xD800 + (c.toNat - 0x10000) / 0x400) ++ unitEscape (0xDC00 + (c.toNat - 0x10000) % 0x400)

/-- A text as a JSON string in ASCII. -/
def jsonString (text : String) : String :=
  String.ofList ('"' :: text.toList.flatMap jsonChar ++ ['"'])

end Winnow.Text
