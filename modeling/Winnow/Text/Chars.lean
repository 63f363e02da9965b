/-!
# Characters and digits

Cutting a text at a separator, and reading and writing runs of decimal digits. Everything works on lists of characters,
so that a law about a piece of text is an induction on the list. `joinWith_splitOn` says that cutting loses nothing.
-/

namespace Winnow.Text

/-- The pieces between the occurrences of a separator; a text without one is a single piece. -/
def splitOn (sep : Char) : List Char → List (List Char)
  | [] => [[]]
  | c :: cs =>
    if c = sep then [] :: splitOn sep cs
    else match splitOn sep cs with
      | [] => [[c]]
      | piece :: pieces => (c :: piece) :: pieces

/-- The pieces put back together with the separator between them. -/
def joinWith (sep : Char) : List (List Char) → List Char
  | [] => []
  | [piece] => piece
  | piece :: pieces => piece ++ sep :: joinWith sep pieces

theorem splitOn_ne_nil (sep : Char) (cs : List Char) : splitOn sep cs ≠ [] := by
  cases cs with
  | nil => simp [splitOn]
  | cons c cs =>
    unfold splitOn
    split
    · simp
    · split <;> simp

/-- A text with a separator in it has the pieces of what is before it and then those of what is behind it. -/
theorem splitOn_append_cons (sep : Char) (cs ds : List Char) :
    splitOn sep (cs ++ sep :: ds) = splitOn sep cs ++ splitOn sep ds := by
  induction cs with
  | nil => simp [splitOn]
  | cons c cs ih =>
    simp only [List.cons_append, splitOn, ih]
    split
    · rfl
    · cases hs : splitOn sep cs with
      | nil => exact absurd hs (splitOn_ne_nil sep cs)
      | cons piece pieces => rfl

theorem joinWith_splitOn (sep : Char) (cs : List Char) : joinWith sep (splitOn sep cs) = cs := by
  induction cs with
  | nil => rfl
  | cons c cs ih =>
    have hne := splitOn_ne_nil sep cs
    unfold splitOn
    split
    · next h =>
      cases hs : splitOn sep cs with
      | nil => exact absurd hs hne
      | cons piece pieces => simp [joinWith, ← hs, ih, h]
    · cases hs : splitOn sep cs with
      | nil => exact absurd hs hne
      | cons piece pieces =>
        rw [hs] at ih
        cases pieces with
        | nil => simpa [joinWith] using ih
        | cons next rest => simpa [joinWith] using ih

/-- The decimal digit of a number below ten. -/
def digitChar (n : Nat) : Char :=
  Char.ofNat (48 + n % 10)

/-- The last `width` decimal digits of a number, zeros in front. -/
def padded : Nat → Nat → List Char
  | 0, _ => []
  | width + 1, n => padded width (n / 10) ++ [digitChar n]

@[simp] theorem length_padded (width n : Nat) : (padded width n).length = width := by
  induction width generalizing n with
  | zero => rfl
  | succ width ih => simp [padded, ih]

/-- The value of a decimal digit, `none` for any other character. -/
def digitValue? (c : Char) : Option Nat :=
  if c.isDigit then some (c.toNat - 48) else none

/-- The number that a run of decimal digits continues from `seed`; `none` once a character is no digit. -/
def readDigitsFrom (seed : Nat) : List Char → Option Nat
  | [] => some seed
  | c :: cs => (digitValue? c).bind fun d => readDigitsFrom (seed * 10 + d) cs

/-- The number written by a run of decimal digits; the empty run writes zero. -/
def readDigits (cs : List Char) : Option Nat :=
  readDigitsFrom 0 cs

/-- Exactly `width` digits off the front of a text, with what follows them. -/
def takeDigits? (width : Nat) (cs : List Char) : Option (Nat × List Char) :=
  if width ≤ cs.length then (readDigits (cs.take width)).map (·, cs.drop width) else none

/-- A text without a given beginning, `none` when it does not begin so. -/
def dropPrefix? : List Char → List Char → Option (List Char)
  | [], rest => some rest
  | _ :: _, [] => none
  | p :: ps, c :: cs => if p = c then dropPrefix? ps cs else none

/-- Whether a text begins with another. -/
def startsWith (start cs : List Char) : Bool :=
  (dropPrefix? start cs).isSome

/-- Every occurrence of one character replaced by a text. -/
def replaceChar (old : Char) (new : List Char) (cs : List Char) : List Char :=
  cs.flatMap fun c => if c = old then new else [c]

end Winnow.Text
