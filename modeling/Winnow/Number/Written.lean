/-!
# Whole numbers as texts

A whole number is written in decimal digits, and only so many of them: a number with more digits than the limit has no
text. A text of more digits is no number either.
-/

namespace Winnow

/-- The number of digits that a whole number may have as a text, its sign not counted. -/
def digitLimit : Nat := 4300

/-- Whether a whole number has no more digits than a text may have: it is less than `10 ^ 4300` in size. -/
def fitsLimit (n : Int) : Bool :=
  n.natAbs < Nat.pow (Nat.pow 10 43) 100

theorem fitsLimit_iff {n : Int} : fitsLimit n = true ↔ n.natAbs < Nat.pow 10 digitLimit := by
  have hpower {m k d : Nat} (h : m * k = d) : Nat.pow (Nat.pow 10 m) k = Nat.pow 10 d :=
    h ▸ (Nat.pow_mul 10 m k).symm
  rw [fitsLimit, decide_eq_true_iff, hpower (d := digitLimit) rfl]

/-- The text of a whole number, `none` when it has too many digits. -/
def writeInt? (n : Int) : Option String :=
  if fitsLimit n then some (toString n) else none

theorem writeInt?_of_fitsLimit {n : Int} (h : fitsLimit n = true) : writeInt? n = some (toString n) :=
  if_pos h

/-- The text of a number is its digits. -/
theorem writeInt?_eq_some {n : Int} {text : String} (h : writeInt? n = some text) : toString n = text := by
  unfold writeInt? at h
  split at h
  · exact Option.some.inj h
  · cases h

@[simp] theorem isSome_writeInt? (n : Int) : (writeInt? n).isSome = fitsLimit n := by
  unfold writeInt?
  split <;> simp_all

/-- A number of few digits has a text. -/
theorem fitsLimit_of_lt {n : Int} (h : n.natAbs < Nat.pow 10 9) : fitsLimit n = true :=
  decide_eq_true (Nat.lt_of_lt_of_le h (by decide))

/-- What is no greater in size than a number with a text has one too. -/
theorem fitsLimit_of_le {m n : Int} (h : m.natAbs ≤ n.natAbs) (hn : fitsLimit n = true) : fitsLimit m = true :=
  decide_eq_true (Nat.lt_of_le_of_lt h (of_decide_eq_true hn))

end Winnow
