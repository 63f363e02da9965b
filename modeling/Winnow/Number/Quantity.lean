import Winnow.Number.Binary64
import Winnow.Number.Decimal

/-!
# Quantities

The value of a number apart from how it is written. Whole, floating-point and decimal numbers are compared as exact
fractions, so `9007199254740993` and `9007199254740992.0` differ. `compareFinite_eq` says that the order is that of the
two numbers brought to common powers of two and ten, which are written out only where they do not decide alone.
-/

namespace Winnow

/-- The value of a number: `finite n b d` is `n * 2 ^ b * 10 ^ d`. -/
inductive Quantity where
  | finite (size : Int) (twos : Int) (tens : Int)
  | infinite (negative : Bool)
  | nan

namespace Quantity

/-- The value of a whole number. -/
def ofInt (n : Int) : Quantity :=
  .finite n 0 0

/-- The value of a truth value: one for true, zero for false. -/
def ofBool (b : Bool) : Quantity :=
  ofInt (if b then 1 else 0)

/-- The value of a floating-point number. -/
def ofBinary64 : Binary64 → Quantity
  | .nan => .nan
  | .infinite negative => .infinite negative
  | .finite negative m e => .finite (if negative then -(m : Int) else m) e 0

/-- The value of a decimal number. -/
def ofDecimal : Decimal → Quantity
  | .nan .. => .nan
  | .infinite negative => .infinite negative
  | .finite negative digits e => .finite (if negative then -(digits : Int) else digits) 0 e

/-- A whole number scaled by the distances of its powers of two and ten from common lower ones. -/
def scaled (size twos tens leastTwos leastTens : Int) : Int :=
  size * Nat.pow 2 (twos - leastTwos).toNat * Nat.pow 10 (tens - leastTens).toNat

/-- The order of two whole numbers scaled by powers of two and ten. -/
def compareScaled (n a d m b e : Int) : Ordering :=
  let left := scaled n a d (min a b) (min d e)
  let right := scaled m b e (min a b) (min d e)
  if left < right then .lt else if left = right then .eq else .gt

/-- Whether a number other than zero is certainly greater in size than another by `tens` powers of ten that only it is
scaled by: each of them has more than three binary digits. -/
def outweighs (n a m b tens : Int) : Bool :=
  0 ≤ tens && m.natAbs.log2 + 1 + b ≤ n.natAbs.log2 + a + 3 * tens

/-- The order of two finite values. Powers of ten that are far apart decide alone, so that they are never written
out. -/
def compareFinite (n a d m b e : Int) : Ordering :=
  if d = e then compareScaled n a d m b e
  else if n.sign ≠ m.sign ∨ n = 0 then compareScaled n.sign 0 0 m.sign 0 0
  else if outweighs n a m b (d - e) then if 0 < n then .gt else .lt
  else if outweighs m b n a (e - d) then if 0 < n then .lt else .gt
  else compareScaled n a d m b e

theorem lt_of_log2_le {x y i j k : Nat} (hx : x ≠ 0) (h : y.log2 + 1 + i ≤ x.log2 + j + 3 * k) :
    y * Nat.pow 2 i < x * Nat.pow 2 j * Nat.pow 10 k :=
  calc y * Nat.pow 2 i < Nat.pow 2 (y.log2 + 1) * Nat.pow 2 i :=
        Nat.mul_lt_mul_of_pos_right Nat.lt_log2_self (Nat.pow_pos (by decide))
    _ = Nat.pow 2 (y.log2 + 1 + i) := (Nat.pow_add ..).symm
    _ ≤ Nat.pow 2 (x.log2 + j + 3 * k) := Nat.pow_le_pow_right (by decide) h
    _ = Nat.pow 2 x.log2 * Nat.pow 2 j * Nat.pow (Nat.pow 2 3) k := by
        simp only [Nat.pow_eq, Nat.pow_add, Nat.pow_mul]
    _ ≤ x * Nat.pow 2 j * Nat.pow 10 k :=
        Nat.mul_le_mul (Nat.mul_le_mul_right _ (Nat.log2_self_le hx)) (Nat.pow_le_pow_left (by decide) k)

theorem natAbs_scaled (n a d p q : Int) :
    (scaled n a d p q).natAbs = n.natAbs * Nat.pow 2 (a - p).toNat * Nat.pow 10 (d - q).toNat := by
  rw [scaled, Int.natAbs_mul, Int.natAbs_mul, Int.natAbs_natCast, Int.natAbs_natCast]

theorem sign_scaled (n a d p q : Int) : (scaled n a d p q).sign = n.sign := by
  have two : (Nat.pow 2 (a - p).toNat : Int).sign = 1 :=
    Int.sign_eq_one_of_pos (Int.natCast_pos.2 (Nat.pow_pos (by decide)))
  have ten : (Nat.pow 10 (d - q).toNat : Int).sign = 1 :=
    Int.sign_eq_one_of_pos (Int.natCast_pos.2 (Nat.pow_pos (by decide)))
  rw [scaled, Int.sign_mul, Int.sign_mul, two, ten, Int.mul_one, Int.mul_one]

theorem natAbs_scaled_lt {n a m b d e : Int} (hn : n ≠ 0) (h : outweighs n a m b (d - e) = true) :
    (scaled m b e (min a b) (min d e)).natAbs < (scaled n a d (min a b) (min d e)).natAbs := by
  simp only [outweighs, Bool.and_eq_true, decide_eq_true_eq] at h
  have hmin : min d e = e := by omega
  have hone : Nat.pow 10 0 = 1 := rfl
  rw [natAbs_scaled, natAbs_scaled, hmin, Int.sub_self, Int.toNat_zero, hone, Nat.mul_one]
  exact lt_of_log2_le (by omega) (by omega)

theorem sign_cases (x : Int) : x < 0 ∧ x.sign = -1 ∨ x = 0 ∧ x.sign = 0 ∨ 0 < x ∧ x.sign = 1 := by
  rcases Int.lt_trichotomy x 0 with h | h | h
  · exact .inl ⟨h, Int.sign_eq_neg_one_of_neg h⟩
  · exact .inr (.inl ⟨h, h ▸ Int.sign_zero⟩)
  · exact .inr (.inr ⟨h, Int.sign_eq_one_of_pos h⟩)

theorem ordered_by_sign {x y : Int} (h : x.sign ≠ y.sign ∨ x = 0) :
    (x < y ↔ x.sign < y.sign) ∧ (x = y ↔ x.sign = y.sign) := by
  have := sign_cases x
  have := sign_cases y
  omega

theorem ordered_by_size {n x y : Int} (hx : x.sign = n.sign) (hy : y.sign = n.sign) (hlt : y.natAbs < x.natAbs) :
    (0 < n → y < x) ∧ (¬ 0 < n → x < y) := by
  have := sign_cases n
  have := sign_cases x
  have := sign_cases y
  omega

/-- The order of two values is that of the whole numbers that they scale to. -/
theorem compareFinite_eq (n a d m b e : Int) : compareFinite n a d m b e = compareScaled n a d m b e := by
  have hl := sign_scaled n a d (min a b) (min d e)
  have hr := sign_scaled m b e (min a b) (min d e)
  unfold compareFinite
  split
  · rfl
  split
  · next h =>
    have hzero : n = 0 → scaled n a d (min a b) (min d e) = 0 := by rintro rfl; simp [scaled]
    have := ordered_by_sign (x := scaled n a d (min a b) (min d e)) (y := scaled m b e (min a b) (min d e))
      (by rw [hl, hr]; exact h.imp_right hzero)
    simp [compareScaled, this.1, this.2, hl, hr, scaled.eq_1 n.sign, scaled.eq_1 m.sign]
  next hsign =>
  have hn : n ≠ 0 := fun h => hsign (.inr h)
  have hm : m ≠ 0 := by
    rintro rfl
    exact hsign (.inl (by simpa using hn))
  have heq : n.sign = m.sign := Decidable.not_not.1 fun h => hsign (.inl h)
  split
  · next h =>
    have order := ordered_by_size hl (hr.trans heq.symm) (natAbs_scaled_lt hn h)
    unfold compareScaled
    split
    · next hpos => have := order.1 hpos; rw [if_neg (by omega), if_neg (by omega)]
    · next hneg => have := order.2 hneg; rw [if_pos this]
  split
  · next h =>
    have hlt := natAbs_scaled_lt hm h
    rw [Int.min_comm b a, Int.min_comm e d] at hlt
    have order := ordered_by_size (hr.trans heq.symm) hl hlt
    unfold compareScaled
    split
    · next hpos => have := order.1 hpos; rw [if_pos this]
    · next hneg => have := order.2 hneg; rw [if_neg (by omega), if_neg (by omega)]
  · rfl

/-- The order of two values, `none` when one of them is a NaN. -/
def compare : Quantity → Quantity → Option Ordering
  | nan, _ => none
  | _, nan => none
  | infinite a, infinite b => some (if a == b then .eq else if a then .lt else .gt)
  | infinite a, finite .. => some (if a then .lt else .gt)
  | finite .., infinite b => some (if b then .gt else .lt)
  | finite n a d, finite m b e => some (compareFinite n a d m b e)

/-- Whether two values are the same; a NaN is not the same as anything. -/
def same (x y : Quantity) : Bool :=
  compare x y == some .eq

theorem compare_ofInt (n m : Int) : compare (ofInt n) (ofInt m) =
    some (if n < m then .lt else if n = m then .eq else .gt) := by
  simp [compare, ofInt, compareFinite, compareScaled, scaled]

theorem same_ofInt (n m : Int) : same (ofInt n) (ofInt m) = decide (n = m) := by
  rw [same, compare_ofInt]
  by_cases h : n = m
  · subst h; simp
  · by_cases hlt : n < m <;> simp [h, hlt]

end Quantity

end Winnow
