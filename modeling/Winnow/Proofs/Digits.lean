import Mathlib.Tactic.IntervalCases
import Winnow.Text.Chars

/-!
# Digits written and read

Statements about `Text.padded` and `Text.takeDigits?`: a number written with enough digits is read back from the front
of a text, with what follows it (`takeDigits?_padded`).
-/

namespace Winnow.Text

/-- The digit written for a number is a digit. -/
@[simp] theorem isDigit_digitChar (n : Nat) : (digitChar n).isDigit = true := by
  have h : n % 10 < 10 := Nat.mod_lt _ (by decide)
  unfold digitChar
  generalize n % 10 = d at h
  interval_cases d <;> decide

/-- A digit stands for the number that it is written for. -/
@[simp] theorem digitValue?_digitChar (n : Nat) : digitValue? (digitChar n) = some (n % 10) := by
  have h : n % 10 < 10 := Nat.mod_lt _ (by decide)
  unfold digitChar
  generalize n % 10 = d at h
  interval_cases d <;> decide

/-- A digit is no other character. -/
theorem digitChar_ne {c : Char} (h : c.isDigit = false) (n : Nat) : digitChar n ≠ c := by
  intro he
  have := isDigit_digitChar n
  rw [he, h] at this
  cases this

/-- Every character of a padded number is a digit. -/
theorem isDigit_of_mem_padded {width n : Nat} {c : Char} (h : c ∈ padded width n) : c.isDigit = true := by
  induction width generalizing n with
  | zero => cases h
  | succ width ih =>
    simp only [padded, List.mem_append, List.mem_singleton] at h
    rcases h with h | rfl
    · exact ih h
    · exact isDigit_digitChar n

/-- Two runs of digits are read one after the other. -/
theorem readDigitsFrom_append (seed : Nat) (cs ds : List Char) :
    readDigitsFrom seed (cs ++ ds) = (readDigitsFrom seed cs).bind fun n => readDigitsFrom n ds := by
  induction cs generalizing seed with
  | nil => rfl
  | cons c cs ih =>
    simp only [List.cons_append, readDigitsFrom]
    cases digitValue? c with
    | none => rfl
    | some d => exact ih _

/-- A padded number is read behind the digits before it. -/
theorem readDigitsFrom_padded (seed width n : Nat) :
    readDigitsFrom seed (padded width n) = some (seed * 10 ^ width + n % 10 ^ width) := by
  induction width generalizing n with
  | zero => simp [padded, readDigitsFrom, Nat.mod_one]
  | succ width ih =>
    simp only [padded, readDigitsFrom_append, ih, readDigitsFrom, digitValue?_digitChar, Option.bind_some,
      Option.some.injEq]
    have hsplit : n % 10 ^ (width + 1) = 10 * (n / 10 % 10 ^ width) + n % 10 := by
      rw [Nat.pow_succ, Nat.mul_comm, Nat.mod_mul]
      exact Nat.add_comm _ _
    rw [hsplit, Nat.pow_succ, ← Nat.mul_assoc, Nat.add_mul, Nat.mul_comm (n / 10 % 10 ^ width) 10, Nat.add_assoc]

/-- A number that fits its width is read back from the front of a text, with what follows. -/
theorem takeDigits?_padded (width : Nat) {n : Nat} (h : n < 10 ^ width) (rest : List Char) :
    takeDigits? width (padded width n ++ rest) = some (n, rest) := by
  have htake : (padded width n ++ rest).take width = padded width n := List.take_left' (length_padded width n)
  have hdrop : (padded width n ++ rest).drop width = rest := List.drop_left' (length_padded width n)
  have hread : readDigits (padded width n) = some n := by
    rw [readDigits, readDigitsFrom_padded, Nat.mod_eq_of_lt h, Nat.zero_mul, Nat.zero_add]
  simp [takeDigits?, htake, hdrop, hread]

end Winnow.Text
