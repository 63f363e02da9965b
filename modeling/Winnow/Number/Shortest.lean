import Winnow.Number.Binary64

/-!
# The shortest text of a number

The text of a floating-point number is the shortest decimal that reads back as that number, and of the shortest ones the
nearest to it. The digits are found on decimal grids of one, two, … seventeen places: a grid holds a decimal that reads
back exactly when one of the two neighbours of the number on that grid does.
-/

namespace Winnow.Binary64

/-- A positive number in decimal scientific form: `0.d₁d₂… * 10 ^ point`, the digits as one whole number. -/
structure Scientific where
  digits : Nat
  point : Int

/-- Twice the number, and twice the ends of the interval of the reals that read back as it, over one denominator. -/
structure Interval where
  low : Nat
  value : Nat
  high : Nat
  den : Nat
  closed : Bool

/-- The interval around `m * 2 ^ e`; it is closed when the mantissa is even, and narrower below a power of two. -/
def interval (m : Nat) (e : Int) : Interval :=
  let narrow := m = Nat.pow 2 52 ∧ minExponent < e
  let low := if narrow then 4 * m - 1 else 4 * m - 2
  let scaled (n : Nat) : Nat := if 0 ≤ e then n * Nat.pow 2 e.toNat else n
  let den := if 0 ≤ e then 4 else 4 * Nat.pow 2 (-e).toNat
  ⟨scaled low, scaled (4 * m), scaled (4 * m + 2), den, m % 2 == 0⟩

/-- Whether `digits * 10 ^ unit` is in an interval. -/
def Interval.contains (i : Interval) (digits : Nat) (unit : Int) : Bool :=
  let (num, den) :=
    if 0 ≤ unit then (digits * Nat.pow 10 unit.toNat * i.den, 1) else (digits * i.den, Nat.pow 10 (-unit).toNat)
  if i.closed then i.low * den ≤ num && num ≤ i.high * den else i.low * den < num && num < i.high * den

/-- The number of places before the point of a fraction: the least `p` with `num / den < 10 ^ p`. The start is a lower
bound from the binary size, and two steps at most lead from it to the answer. -/
def pointOf (num den : Nat) : Int :=
  let start : Int := (((Nat.log2 num : Int) - Nat.log2 den - 1) * 30103) / 100000
  let below (p : Int) : Bool := if 0 ≤ p then num < den * Nat.pow 10 p.toNat else num * Nat.pow 10 (-p).toNat < den
  if below start then start
  else if below (start + 1) then start + 1
  else if below (start + 2) then start + 2
  else start + 3

/-- On the grid with a given unit, the neighbour of the value that reads back, the nearer one of two. -/
def Interval.onGrid? (i : Interval) (unit : Int) : Option Nat :=
  let (num, den) :=
    if 0 ≤ unit then (i.value, i.den * Nat.pow 10 unit.toNat) else (i.value * Nat.pow 10 (-unit).toNat, i.den)
  let below := num / den
  let rest := 2 * (num % den)
  let hasBelow := below != 0 && i.contains below unit
  let hasAbove := i.contains (below + 1) unit
  match hasBelow, hasAbove with
  | true, true => some (if rest < den || (rest == den && below % 2 == 0) then below else below + 1)
  | true, false => some below
  | false, true => some (below + 1)
  | false, false => none

/-- The digits on the first grid that has a decimal that reads back. -/
def firstGrid (i : Interval) (point : Int) : Nat → Nat → Scientific
  | 0, places => ⟨(i.onGrid? (point - places)).getD 0, point⟩
  | fuel + 1, places =>
    match i.onGrid? (point - places) with
    | some digits => if Nat.pow 10 places ≤ digits then ⟨1, point + 1⟩ else ⟨digits, point⟩
    | none => firstGrid i point fuel (places + 1)

/-- The shortest decimal form of a positive finite number. -/
def shortest (m : Nat) (e : Int) : Scientific :=
  let i := interval m e
  firstGrid i (pointOf i.value i.den) 17 1

/-- A text of digits without its trailing zeros, at least one digit being kept. -/
def withoutTrailingZeros (digits : List Char) : List Char :=
  match (digits.reverse.dropWhile (· = '0')).reverse with
  | [] => ['0']
  | kept => kept

/-- The text of digits `0.d₁d₂… * 10 ^ point`: positional from `10 ^ -4` up to `10 ^ 16`, with `.0` after a whole
number, and else with an exponent of two digits at least. -/
def Scientific.toText (s : Scientific) : String :=
  let digits := withoutTrailingZeros (toString s.digits).toList
  let size : Int := digits.length
  String.ofList <|
    if -4 < s.point ∧ s.point ≤ 0 then "0.".toList ++ List.replicate (-s.point).toNat '0' ++ digits
    else if 0 < s.point ∧ s.point ≤ 16 then
      if size ≤ s.point then digits ++ List.replicate (s.point - size).toNat '0' ++ ".0".toList
      else digits.take s.point.toNat ++ '.' :: digits.drop s.point.toNat
    else
      let exponent := s.point - 1
      let sign := if exponent < 0 then '-' else '+'
      let places := (toString exponent.natAbs).toList
      let places := if places.length < 2 then '0' :: places else places
      let fraction := if size ≤ 1 then [] else '.' :: digits.drop 1
      digits.take 1 ++ fraction ++ 'e' :: sign :: places

/-- The text of a number. -/
def toText : Binary64 → String
  | nan => "nan"
  | infinite negative => if negative then "-inf" else "inf"
  | finite negative m e =>
    let size := if m = 0 then "0.0" else (shortest m e).toText
    if negative then "-" ++ size else size

end Winnow.Binary64
