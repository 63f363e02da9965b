/-!
# Unique identifiers as text

An identifier of 32 hexadecimal digits, in any of its spellings, in canonical form: lower case, in groups of eight,
four, four, four and twelve digits. The digits write one number.
-/

namespace Winnow.Text

/-- Whether a character is a hexadecimal digit. -/
def isHexDigit (c : Char) : Bool :=
  c.isDigit || ('a' ≤ c && c ≤ 'f') || ('A' ≤ c && c ≤ 'F')

/-- A list cut into groups of given sizes, with a dash between them. -/
def dashed : List Nat → List Char → List Char
  | [], _ => []
  | [size], cs => cs.take size
  | size :: sizes, cs => cs.take size ++ '-' :: dashed sizes (cs.drop size)

/-- The canonical form of an identifier: braces and dashes do not count. -/
def canonicalUuid? (text : String) : Option String :=
  let digits := text.toList.filter fun c => c != '-' && c != '\x7b' && c != '\x7d'
  if digits.length = 32 ∧ digits.all isHexDigit then
    some (String.ofList (dashed [8, 4, 4, 4, 12] (digits.map Char.toLower)))
  else none

/-- The number that the digits of an identifier in canonical form write. -/
def uuidNumber (canonical : String) : Nat :=
  (canonical.toList.filter isHexDigit).foldl (fun n c => 16 * n + (c.toNat - if c.isDigit then 48 else 87)) 0

end Winnow.Text
