import Mathlib.Algebra.Order.Field.Power
import Mathlib.Algebra.Order.Field.Rat
import Mathlib.Order.WithBot
import Mathlib.Tactic.Positivity
import Mathlib.Tactic.Ring
import Winnow.Proofs.Scale

/-!
# Kinds of comparable values

Values are comparable when they are of one kind: numbers that are not NaNs, whatever their form, texts, dates, clock
times in zones or out of them, and identifiers. Each value of a kind has a mark, and all that the program does to
compare two values of one kind, when ranking them and when matching them, is to compare their marks.
-/

namespace Winnow

/-- Two pairs that agree on which is less and on equality are in the same order. -/
theorem compare_congr {α β : Type} [LinearOrder α] [LinearOrder β] {a b : α} {c d : β} (hlt : a < b ↔ c < d)
    (heq : a = b ↔ c = d) : compare a b = compare c d := by
  rw [LinearOrder.compare_eq_compareOfLessAndEq, LinearOrder.compare_eq_compareOfLessAndEq]
  simp only [compareOfLessAndEq, hlt, heq]

/-- An order is that of equality when the two are equal. -/
theorem beq_some_compare {α : Type} [LinearOrder α] (a b : α) :
    (some (compare a b) == some Ordering.eq) = decide (a = b) := by
  rw [Bool.eq_iff_iff, decide_eq_true_iff, beq_iff_eq, Option.some_inj, compare_eq_iff_eq]

/-! ## Numbers -/

namespace Quantity

/-- The number that a size with powers of two and ten stands for. -/
def number (n a d : Int) : ℚ :=
  n * 2 ^ a * 10 ^ d

/-- The place of a value among the numbers and the infinities, `none` for a NaN. -/
def mark? : Quantity → Option (WithBot (WithTop ℚ))
  | finite n a d => some ((number n a d : WithTop ℚ) : WithBot (WithTop ℚ))
  | infinite true => some ⊥
  | infinite false => some ((⊤ : WithTop ℚ) : WithBot (WithTop ℚ))
  | nan => none

/-- A number is the whole number that it scales to, brought back by the powers it was scaled by. -/
theorem number_eq_scaled {n a d p q : Int} (ha : p ≤ a) (hd : q ≤ d) :
    number n a d = scaled n a d p q * (2 ^ p * 10 ^ q) := by
  have htwo : (2 : ℚ) ^ a = 2 ^ (a - p).toNat * 2 ^ p := by
    rw [← zpow_natCast, ← zpow_add₀ (by norm_num), Int.toNat_of_nonneg (by omega), sub_add_cancel]
  have hten : (10 : ℚ) ^ d = 10 ^ (d - q).toNat * 10 ^ q := by
    rw [← zpow_natCast, ← zpow_add₀ (by norm_num), Int.toNat_of_nonneg (by omega), sub_add_cancel]
  rw [number, scaled, htwo, hten]
  push_cast [Nat.pow_eq]
  ring

/-- Whole numbers scaled to common powers are in the order of the numbers. -/
theorem compareScaled_eq (n a d m b e : Int) : compareScaled n a d m b e = Ord.compare (number n a d) (number m b e) := by
  have hscale : (0 : ℚ) < 2 ^ min a b * 10 ^ min d e := by positivity
  rw [LinearOrder.compare_eq_compareOfLessAndEq, compareOfLessAndEq,
    number_eq_scaled (min_le_left a b) (min_le_left d e), number_eq_scaled (min_le_right a b) (min_le_right d e)]
  simp only [mul_lt_mul_iff_left₀ hscale, mul_left_inj' hscale.ne', Int.cast_lt, Int.cast_inj]
  rfl

/-- Two values that are not NaNs are in the order of their places. -/
theorem compare_of_mark {x y : Quantity} {p q : WithBot (WithTop ℚ)} (hx : x.mark? = some p) (hy : y.mark? = some q) :
    x.compare y = some (Ord.compare p q) := by
  have hlt : ∀ {p q : WithBot (WithTop ℚ)}, p < q → some Ordering.lt = some (Ord.compare p q) :=
    fun h => congrArg some (compare_lt_iff_lt.2 h).symm
  have hgt : ∀ {p q : WithBot (WithTop ℚ)}, q < p → some Ordering.gt = some (Ord.compare p q) :=
    fun h => congrArg some (compare_gt_iff_gt.2 h).symm
  have hself : ∀ p : WithBot (WithTop ℚ), some Ordering.eq = some (Ord.compare p p) :=
    fun p => congrArg some (compare_eq_iff_eq.2 rfl).symm
  have htop : ∀ r : ℚ, ((r : WithTop ℚ) : WithBot (WithTop ℚ)) < ((⊤ : WithTop ℚ) : WithBot (WithTop ℚ)) :=
    fun r => WithBot.coe_lt_coe.2 (WithTop.coe_lt_top r)
  match x, y, hx, hy with
  | finite n a d, finite m b e, rfl, rfl =>
    rw [compare, compareFinite_eq, compareScaled_eq]
    refine congrArg some (compare_congr ?_ ?_)
    · rw [WithBot.coe_lt_coe, WithTop.coe_lt_coe]
    · rw [WithBot.coe_inj, WithTop.coe_inj]
  | finite .., infinite true, rfl, rfl => exact hgt (WithBot.bot_lt_coe _)
  | finite .., infinite false, rfl, rfl => exact hlt (htop _)
  | infinite true, finite .., rfl, rfl => exact hlt (WithBot.bot_lt_coe _)
  | infinite false, finite .., rfl, rfl => exact hgt (htop _)
  | infinite true, infinite true, rfl, rfl => exact hself _
  | infinite true, infinite false, rfl, rfl => exact hlt (WithBot.bot_lt_coe _)
  | infinite false, infinite true, rfl, rfl => exact hgt (WithBot.bot_lt_coe _)
  | infinite false, infinite false, rfl, rfl => exact hself _

/-- Two values that are not NaNs are the same when their places are. -/
theorem same_of_mark {x y : Quantity} {p q : WithBot (WithTop ℚ)} (hx : x.mark? = some p) (hy : y.mark? = some q) :
    x.same y = decide (p = q) := by
  rw [same, compare_of_mark hx hy, beq_some_compare]

end Quantity

/-! ## Kinds -/

/-- A kind of values that are comparable with one another. -/
inductive Kind where
  | number
  | text
  | moment
  | clock (zoned : Bool)
  | uuid
  deriving DecidableEq

namespace Kind

/-- The marks of a kind: numbers and the infinities, texts, instants, and microseconds on the clock of universal time. -/
def Mark : Kind → Type
  | number => WithBot (WithTop ℚ)
  | text => String
  | moment => Instant
  | clock _ => Int
  | uuid => String

instance (k : Kind) : LinearOrder k.Mark :=
  match k with
  | number => inferInstanceAs (LinearOrder (WithBot (WithTop ℚ)))
  | text => inferInstanceAs (LinearOrder String)
  | moment => inferInstanceAs (LinearOrder Instant)
  | clock _ => inferInstanceAs (LinearOrder Int)
  | uuid => inferInstanceAs (LinearOrder String)

instance (k : Kind) : Inhabited k.Mark :=
  match k with
  | number => ⟨(⊥ : WithBot (WithTop ℚ))⟩
  | text => ⟨""⟩
  | moment => inferInstanceAs (Inhabited (Scale.Mark .time))
  | clock _ => ⟨(0 : Int)⟩
  | uuid => ⟨""⟩

/-- The mark of a value, if it is of the kind. -/
def read (k : Kind) (v : Value) : Option k.Mark :=
  match k with
  | number => v.asQuantity?.bind Quantity.mark?
  | text => v.asText?
  | moment => Scale.readTime v
  | clock zoned => match v with
    | .time t => if t.offset?.isSome = zoned then some t.universalMicros else none
    | _ => none
  | uuid => match v with
    | .uuid s => some s
    | _ => none

variable {k : Kind} {v w : Value} {a b : k.Mark}

/-- A value of a kind is not null. -/
theorem ne_null_of_read (h : k.read v = some a) : v ≠ .null := by
  rintro rfl
  cases k <;> cases h

/-- A value of a kind is one value. -/
theorem elements_of_read (h : k.read v = some a) : v.elements = [v] := by
  cases v with
  | null | list | tuple => cases k <;> cases h
  | _ => rfl

/-! ## Values outside of dates -/

/-- Two values are equal exactly when their marks are, and in the order of their marks. -/
structure Agree (v w : Value) (a b : k.Mark) : Prop where
  same : v.same? w = some (decide (a = b))
  order : v.order w = .ok (some (compare a b))

/-- Equality and order of values that hold no others. -/
theorem agree_of_scalar (hv : k.read v = some a) (hcalm : v.signalsScalar w = false)
    (hsame : v.sameScalar w = decide (a = b)) (horder : v.orderScalar w = .ok (some (compare a b))) :
    Agree v w a b := by
  have hscalar : v.signals w = v.signalsScalar w ∧ v.same w = v.sameScalar w ∧ v.order w = v.orderScalar w := by
    cases v with
    | list | tuple | object | record | condition | query => cases k <;> cases hv
    | _ => exact ⟨rfl, rfl, rfl⟩
  refine ⟨?_, hscalar.2.2.trans horder⟩
  rw [Value.same?, hscalar.1, hcalm, hscalar.2.1, hsame]
  rfl

theorem isSignaling_of_read_number {a : number.Mark} (h : number.read v = some a) : v.isSignaling = false := by
  cases v with
  | decimal x =>
    cases x with
    | nan => cases h
    | _ => rfl
  | _ => rfl

theorem agree_number {a b : number.Mark} (hv : number.read v = some a) (hw : number.read w = some b) :
    Agree v w a b := by
  obtain ⟨x, hx, hxa⟩ := Option.bind_eq_some_iff.1 hv
  obtain ⟨y, hy, hyb⟩ := Option.bind_eq_some_iff.1 hw
  refine agree_of_scalar hv ?_ ?_ ?_
  · exact Value.signalsScalar_eq_false (isSignaling_of_read_number hv) (isSignaling_of_read_number hw)
  · simp only [Value.sameScalar, hx, hy]
    exact Quantity.same_of_mark hxa hyb
  · simp only [Value.orderScalar, hx, hy, Value.orderQuantity, Quantity.compare_of_mark hxa hyb]
    rfl

theorem agree_text {a b : text.Mark} (hv : text.read v = some a) (hw : text.read w = some b) : Agree v w a b := by
  have hx : v.asText? = some a := hv
  have hy : w.asText? = some b := hw
  have hnumber : v.asQuantity? = none := by
    cases v with
    | bool | int | float | decimal => cases hx
    | _ => rfl
  refine agree_of_scalar hv ?_ ?_ ?_
  · rw [Value.signalsScalar, hnumber]
    rfl
  · simp only [Value.sameScalar, hnumber, hx, hy]
    exact beq_eq_decide ..
  · simp only [Value.orderScalar, hnumber, hx, hy]
    rw [LinearOrder.compare_eq_compareOfLessAndEq]
    rfl

theorem agree_uuid {a b : uuid.Mark} (hv : uuid.read v = some a) (hw : uuid.read w = some b) : Agree v w a b := by
  obtain rfl : v = .uuid a := by
    cases v with
    | uuid s => exact congrArg Value.uuid (Option.some.inj hv)
    | _ => cases hv
  obtain rfl : w = .uuid b := by
    cases w with
    | uuid s => exact congrArg Value.uuid (Option.some.inj hw)
    | _ => cases hw
  refine agree_of_scalar hv rfl (beq_eq_decide ..) ?_
  show Except.ok (some (orderText a b)) = _
  rw [LinearOrder.compare_eq_compareOfLessAndEq]
  rfl

/-- A clock time of a kind is one in a zone, or one in none. -/
theorem eq_time_of_read {zoned : Bool} {a : (clock zoned).Mark} (h : (clock zoned).read v = some a) :
    ∃ t : ClockTime, v = .time t ∧ t.offset?.isSome = zoned ∧ a = t.universalMicros := by
  cases v with
  | time t =>
    change (if t.offset?.isSome = zoned then some t.universalMicros else none) = some a at h
    split at h
    · next hzoned => exact ⟨t, rfl, hzoned, (Option.some.inj h).symm⟩
    · cases h
  | _ => cases h

/-- Two clock times, both in zones or both in none, are in the order of their clocks in universal time. -/
theorem order?_time {t u : ClockTime} (h : t.offset?.isSome = u.offset?.isSome) :
    t.order? u = some (compare t.universalMicros u.universalMicros) := by
  have hshift : ∀ c : Int, compare t.time.micros u.time.micros =
      compare ((t.time.micros : Int) - c) ((u.time.micros : Int) - c) :=
    fun c => compare_congr (by omega) (by omega)
  unfold ClockTime.order? ClockTime.universalMicros
  split
  · next ht hu =>
    rw [ht, hu, hshift 0]
    rfl
  · next o p ht hu =>
    rw [ht, hu]
    split
    · next hop =>
      subst hop
      exact congrArg some (hshift _)
    · rfl
  · next hnone hsome =>
    cases ht : t.offset? with
    | none =>
      cases hu : u.offset? with
      | none => exact absurd hu (hnone ht)
      | some p => simp [ht, hu] at h
    | some o =>
      cases hu : u.offset? with
      | none => simp [ht, hu] at h
      | some p => exact absurd hu (hsome o p ht)

theorem agree_clock {zoned : Bool} {a b : (clock zoned).Mark} (hv : (clock zoned).read v = some a)
    (hw : (clock zoned).read w = some b) : Agree v w a b := by
  obtain ⟨t, rfl, ht, rfl⟩ := eq_time_of_read hv
  obtain ⟨u, rfl, hu, rfl⟩ := eq_time_of_read hw
  have horder := order?_time (ht.trans hu.symm)
  refine agree_of_scalar hv rfl ?_ ?_
  · show (t.order? u == some .eq) = _
    rw [horder]
    exact beq_some_compare ..
  · show Value.orderScalar.known (t.order? u) = _
    rw [horder]
    rfl

/-- Two values of one kind other than dates are equal and in order as their marks are. -/
theorem agree_of_read (hk : k ≠ moment) (hv : k.read v = some a) (hw : k.read w = some b) : Agree v w a b := by
  cases k with
  | number => exact agree_number hv hw
  | text => exact agree_text hv hw
  | moment => exact absurd rfl hk
  | clock zoned => exact agree_clock hv hw
  | uuid => exact agree_uuid hv hw

/-- A value of a kind is a date exactly when the kind is that of dates. -/
theorem isTemporal_of_read (h : k.read v = some a) : v.isTemporal = decide (k = moment) := by
  cases v with
  | date | datetime =>
    cases k with
    | moment => rfl
    | _ => cases h
  | _ =>
    cases k with
    | moment => cases h
    | _ => rfl

/-! ## Comparing and ranking -/

/-- Two values of one kind are brought to a common form that is equal and in order as their marks are. -/
theorem comparable_of_read (hv : k.read v = some a) (hw : k.read w = some b) :
    ∃ pair, Comparable.of v w = .ok (some pair) ∧ pair.same? = some (decide (a = b)) ∧
      pair.order = .ok (some (compare a b)) := by
  by_cases hk : k = moment
  · subst hk
    obtain ⟨htemporal, hleft⟩ := Scale.toInstant_of_readTime hv
    obtain ⟨-, hright⟩ := Scale.toInstant_of_readTime hw
    refine ⟨.instants a b, ?_, congrArg some ?_, rfl⟩
    · rw [Comparable.of, htemporal, hleft, hright]
      rfl
    · by_cases hab : a = b
      · rw [decide_eq_true hab]
        exact beq_iff_eq.2 hab
      · rw [decide_eq_false hab]
        exact beq_eq_false_iff_ne.2 hab
  · have hagree := agree_of_read hk hv hw
    refine ⟨.values v w, ?_, hagree.same, hagree.order⟩
    rw [Comparable.of, isTemporal_of_read hv, isTemporal_of_read hw, decide_eq_false hk]
    rfl

/-- The form in which a value is ranked, itself when it cannot be. -/
def ranked (v : Value) : Value :=
  (rankable v).toOption.getD v

theorem ranked_eq {form : Value} (h : rankable v = .ok form) : ranked v = form := by
  rw [ranked, h]
  rfl

/-- A date is ranked as its instant. -/
theorem rankable_moment {i : Instant} (h : moment.read v = some i) : rankable v = .ok (.ofInstant i) :=
  Scale.rankable_of_read (s := .time) h

/-- A value of a kind other than dates is ranked as it is. -/
theorem rankable_of_ne_moment (hk : k ≠ moment) (h : k.read v = some a) : rankable v = .ok v := by
  rw [rankable, isTemporal_of_read h, decide_eq_false hk]
  rfl

/-- A value of a kind is ranked in a form of the same mark. -/
theorem rankable_of_read (h : k.read v = some a) : rankable v = .ok (ranked v) ∧ k.read (ranked v) = some a := by
  by_cases hk : k = moment
  · subst hk
    have hform := rankable_moment h
    rw [ranked_eq hform]
    exact ⟨hform, DateTime.toInstant?_ofInstant a⟩
  · have hform := rankable_of_ne_moment hk h
    rw [ranked_eq hform]
    exact ⟨hform, h⟩

/-- Two values of one kind are ranked in the order of their marks. -/
theorem orderOf_ranked (hv : k.read v = some a) (hw : k.read w = some b) :
    orderOf (ranked v) (ranked w) = .ok (some (compare a b)) := by
  by_cases hk : k = moment
  · subst hk
    rw [ranked_eq (rankable_moment hv), ranked_eq (rankable_moment hw)]
    exact Scale.orderOf_form .time a b
  · rw [ranked_eq (rankable_of_ne_moment hk hv), ranked_eq (rankable_of_ne_moment hk hw), orderOf,
      (agree_of_read hk hv hw).order]
    rfl

/-- The microseconds of an instant are those of any date and time that stands for it. -/
theorem micros_of_toInstant? {t : DateTime} {i : Instant} (h : t.toInstant? = some i) :
    (i.micros : Int) = t.universalMicros := by
  unfold DateTime.toInstant? Instant.of? at h
  split at h
  · next hrange =>
    cases h
    exact Int.toNat_of_nonneg hrange.1
  · cases h

/-- Instants are in the order of their microseconds, as whole numbers or not. -/
theorem compare_instants {α : Type} [LinearOrder α] {i j : Instant} {x y : α} (hlt : x < y ↔ i.micros < j.micros)
    (heq : x = y ↔ i.micros = j.micros) : compare x y = compare i j := by
  refine compare_congr hlt (heq.trans ⟨?_, congrArg Instant.micros⟩)
  intro h
  cases i
  cases j
  cases h
  rfl

/-- The beginning of a day in microseconds, from its number. -/
theorem universalMicros_ofDate (d : Date) :
    ∃ days : Nat, d.ordinal = days + 1 ∧ (DateTime.ofDate d).universalMicros = days * 86400000000 := by
  refine ⟨d.ordinal - 1, (Nat.sub_add_cancel d.ordinal_pos).symm, ?_⟩
  have hmidnight : TimeOfDay.midnight.micros = 0 := by decide
  simp only [DateTime.universalMicros, DateTime.localMicros, DateTime.ofDate, Date.micros, microsPerDay, hmidnight,
    Option.elim, Offset.utc]
  omega

/-- Two dates that have an order when taken as they are have that of their instants. -/
theorem order_of_readTime {i j : Instant} (hv : Scale.readTime v = some i) (hw : Scale.readTime w = some j)
    {o : Ordering} (h : v.order w = .ok (some o)) : o = compare i j := by
  cases v with
  | date d =>
    cases w with
    | date e =>
      have hi := micros_of_toInstant? hv
      have hj := micros_of_toInstant? hw
      obtain ⟨m, hm, hday⟩ := universalMicros_ofDate d
      obtain ⟨n, hn, hday'⟩ := universalMicros_ofDate e
      obtain rfl : compare d.ordinal e.ordinal = o := Option.some.inj (Except.ok.inj h)
      exact compare_instants (by omega) (by omega)
    | datetime u => cases h
    | _ => cases hw
  | datetime t =>
    cases w with
    | date e => cases h
    | datetime u =>
      have hi := micros_of_toInstant? hv
      have hj := micros_of_toInstant? hw
      change Value.orderScalar.known (t.order? u) = .ok (some o) at h
      rw [DateTime.order?] at h
      split at h
      · obtain rfl : compare t.universalMicros u.universalMicros = o := Option.some.inj (Except.ok.inj h)
        exact compare_instants (by omega) (by omega)
      · cases h
    | _ => cases hw
  | _ => cases hv

/-- An order of two values that is no fault is that of comparing them. -/
theorem order_of_orderOf {v w : Value} {order : Option Ordering} (h : orderOf v w = .ok order) :
    v.order w = .ok order := by
  rw [orderOf] at h
  cases hvw : v.order w with
  | error fault =>
    rw [hvw] at h
    cases h
  | ok found =>
    rw [hvw] at h
    cases h
    rfl

/-- Two values of one kind that have an order when taken as they are have that of their marks. -/
theorem orderOf_eq (hv : k.read v = some a) (hw : k.read w = some b) {o : Ordering} (h : orderOf v w = .ok (some o)) :
    o = compare a b := by
  have horder := order_of_orderOf h
  by_cases hk : k = moment
  · subst hk
    exact order_of_readTime hv hw horder
  · rw [(agree_of_read hk hv hw).order] at horder
    cases horder
    rfl

end Kind

end Winnow
