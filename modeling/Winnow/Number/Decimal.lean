import Winnow.Text.Chars

/-!
# Decimal numbers

Numbers with a decimal exponent that keep their trailing zeros, so `1.50` and `1.5` are equal in value and different as
texts. Their text is the scientific form of the general decimal arithmetic specification.
-/

namespace Winnow

/-- A decimal number: `finite negative digits exponent` is `digits * 10 ^ exponent`, with the sign. -/
inductive Decimal where
  | finite (negative : Bool) (digits : Nat) (exponent : Int)
  | infinite (negative : Bool)
  | nan (negative signaling : Bool) (payload : Option Nat)
  deriving DecidableEq

namespace Decimal

/-- Whether the number is a NaN of either kind. -/
def isNaN : Decimal → Bool
  | nan .. => true
  | _ => false

/-- Whether a NaN is one that refuses every comparison. -/
def isSignaling : Decimal → Bool
  | nan _ signaling _ => signaling
  | _ => false

/-- The quotient and the remainder of a number by a power of ten. A power with more binary digits than the number is not
written out. -/
def splitAtPower (digits places : Nat) : Nat × Nat :=
  if digits.log2 < places then (0, digits) else (digits / Nat.pow 10 places, digits % Nat.pow 10 places)

theorem splitAtPower_eq (digits places : Nat) :
    splitAtPower digits places = (digits / Nat.pow 10 places, digits % Nat.pow 10 places) := by
  unfold splitAtPower
  split
  · next h =>
    have hlt : digits < Nat.pow 10 places := by
      by_cases hz : digits = 0
      · subst hz; exact Nat.pow_pos (by decide)
      · exact Nat.lt_of_lt_of_le ((Nat.log2_lt hz).1 h) (Nat.pow_le_pow_left (by decide) places)
    rw [Nat.div_eq_of_lt hlt, Nat.mod_eq_of_lt hlt]
  · rfl

/-- The whole part of a finite number, toward zero. -/
def truncate? : Decimal → Option Int
  | finite negative digits e =>
    let size := if 0 ≤ e then digits * Nat.pow 10 e.toNat else (splitAtPower digits (-e).toNat).1
    some (if negative then -(size : Int) else size)
  | _ => none

/-- Whether a finite number is whole. -/
def isWhole : Decimal → Bool
  | finite _ digits e => 0 ≤ e || (splitAtPower digits (-e).toNat).2 == 0
  | _ => false

/-- The text of a number: positional when the exponent is not positive and the first digit is not below the sixth
place. -/
def toText : Decimal → String
  | infinite negative => sign negative ++ "Infinity"
  | nan negative signaling payload =>
    sign negative ++ (if signaling then "sNaN" else "NaN") ++ (payload.map toString).getD ""
  | finite negative digits exponent =>
    let places := (toString digits).toList
    let point := exponent + places.length
    sign negative ++ String.ofList (
      if exponent ≤ 0 ∧ -6 < point then
        if exponent = 0 then places
        else if 0 < point then places.take point.toNat ++ '.' :: places.drop point.toNat
        else "0.".toList ++ List.replicate (-point).toNat '0' ++ places
      else
        let shown := point - 1
        let fraction := if places.length ≤ 1 then [] else '.' :: places.drop 1
        let mark := if shown < 0 then '-' else '+'
        places.take 1 ++ fraction ++ 'E' :: mark :: (toString shown.natAbs).toList)
where
  sign (negative : Bool) : String := if negative then "-" else ""

/-- The digits before and after the point of a numeral, with what follows. -/
def readDigitsAndPoint (cs : List Char) : List Char × List Char × List Char :=
  let whole := cs.takeWhile Char.isDigit
  match cs.dropWhile Char.isDigit with
  | '.' :: rest => (whole, rest.takeWhile Char.isDigit, rest.dropWhile Char.isDigit)
  | rest => (whole, [], rest)

/-- A sign off the front of a text: whether it is a minus, and what follows. -/
def readSign : List Char → Bool × List Char
  | '-' :: rest => (true, rest)
  | '+' :: rest => (false, rest)
  | rest => (false, rest)

/-- The exponent after the digits of a numeral: none when nothing follows, else `e`, a sign and digits to the end. -/
def readExponent? : List Char → Option Int
  | [] => some 0
  | mark :: rest =>
    if mark.toLower = 'e' then
      let (negative, digits) := readSign rest
      if digits.isEmpty then none
      else (Text.readDigits digits).map fun n => if negative then -(n : Int) else n
    else none

/-- The number written by a numeral, an infinity or a NaN in any case of letters. -/
def ofText? (text : String) : Option Decimal :=
  let (negative, body) := readSign text.toList
  let word := String.ofList (body.map Char.toLower)
  if word == "inf" || word == "infinity" then some (infinite negative)
  else
    match Text.dropPrefix? "nan".toList word.toList, Text.dropPrefix? "snan".toList word.toList with
    | some rest, _ => payload? rest |>.map (nan negative false)
    | none, some rest => payload? rest |>.map (nan negative true)
    | none, none =>
      let (whole, fraction, rest) := readDigitsAndPoint body
      if whole.isEmpty && fraction.isEmpty then none
      else do
        let digits ← Text.readDigits (whole ++ fraction)
        let exponent ← readExponent? rest
        some (finite negative digits (exponent - fraction.length))
where
  payload? (digits : List Char) : Option (Option Nat) :=
    if digits.isEmpty then some none else (Text.readDigits digits).map fun n => if n = 0 then none else some n

end Decimal

end Winnow
