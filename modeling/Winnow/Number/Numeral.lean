import Winnow.Text.Chars

/-!
# Whole numbers from loose numerals

A plain numeral is an optional minus sign and digits that begin with a zero only if it stands alone. A loose one may
also have blanks around it, a plus sign, zeros in front, a fraction of zeros and single underscores between its digits.

A text is read as it stands first, and refused for its size when it begins with more than 4300 digits, the sign not
counted. Only a text that is no plain numeral is tidied and read again, and then a size beyond the limit is no reason of
its own.
-/

namespace Winnow.Numeral

/-- Why a text is not taken as a whole number. -/
inductive Refusal where
  | notANumeral
  | tooLong
  deriving DecidableEq

/-- Whether a character is white space in the sense of the character database. -/
def isBlank (c : Char) : Bool :=
  let n := c.toNat
  (9 ≤ n && n ≤ 13) || n == 0x20 || n == 0x85 || n == 0xA0 || n == 0x1680 || (0x2000 ≤ n && n ≤ 0x200A) ||
    n == 0x2028 || n == 0x2029 || n == 0x202F || n == 0x205F || n == 0x3000

/-- A text without the blanks around it. -/
def trimmed (cs : List Char) : List Char :=
  ((cs.dropWhile isBlank).reverse.dropWhile isBlank).reverse

/-- A text without a plus sign in front, unless a minus sign follows it. -/
def withoutPlus : List Char → List Char
  | '+' :: '-' :: rest => '+' :: '-' :: rest
  | '+' :: rest => rest
  | cs => cs

/-- The rest of a numeral after zeros, `last` being the last character left out: from the first digit that is not zero
or the first minus sign, or a point with the character before it, or the last character alone. -/
def afterZeros? (last : Char) : List Char → Option (List Char)
  | [] => some [last]
  | c :: rest =>
    if c = '0' || c = '_' then afterZeros? c rest
    else if c = '-' || c.isDigit then some (c :: rest)
    else if c = '.' then some (last :: c :: rest)
    else none

/-- Digits without zeros in front; `none` when a text does not begin with a digit. -/
def withoutZeros? : List Char → Option (List Char)
  | [] => none
  | c :: rest =>
    if c = '0' then afterZeros? c rest
    else if c.isDigit then some (c :: rest)
    else none

/-- A numeral without a fraction of zeros. -/
def withoutFraction (cs : List Char) : List Char :=
  match cs.dropWhile (· != '.') with
  | _ :: fraction => if !fraction.isEmpty && fraction.all (· = '0') then cs.takeWhile (· != '.') else cs
  | [] => cs

/-- Whether two underscores stand side by side. -/
def hasDoubleUnderscore : List Char → Bool
  | '_' :: '_' :: _ => true
  | _ :: rest => hasDoubleUnderscore rest
  | [] => false

/-- A numeral without its underscores, if each of them stands between two other characters. -/
def withoutUnderscores (cs : List Char) : List Char :=
  if cs.head? = some '_' || cs.getLast? = some '_' || hasDoubleUnderscore cs then cs else cs.filter (· != '_')

/-- A loose numeral made plain; `none` when a text begins with no digit after its signs. -/
def tidied? (cs : List Char) : Option (List Char) :=
  let tidy (body : List Char) : List Char := withoutUnderscores (withoutFraction body)
  match withoutPlus (trimmed cs) with
  | '-' :: rest => (withoutZeros? rest).map fun digits => tidy ('-' :: digits)
  | body => (withoutZeros? body).map tidy

/-- The number of digits that a numeral may have. -/
def sizeLimit : Nat := 4300

/-- The number of a plain numeral. Its size is judged before anything that follows the digits is looked at. -/
def readPlain (cs : List Char) : Except Refusal Int :=
  let negative := cs.head? = some '-'
  let body := if negative then cs.tail else cs
  if body.head? = some '0' then
    if body.length = 1 then .ok 0 else .error .notANumeral
  else
    let digits := body.takeWhile Char.isDigit
    if digits.isEmpty then .error .notANumeral
    else if sizeLimit < digits.length then .error .tooLong
    else match Text.readDigits body with
      | none => .error .notANumeral
      | some n => .ok (if negative then -(n : Int) else n)

/-- The number of a plain or a loose numeral. -/
def read (cs : List Char) : Except Refusal Int :=
  match readPlain cs with
  | .error .notANumeral => match tidied? cs with
    | none => .error .notANumeral
    | some body => (readPlain body).mapError fun _ => .notANumeral
  | plain => plain

end Winnow.Numeral
