import Mathlib.Tactic.SplitIfs
import Winnow.Proofs.Outcome
import Winnow.Temporal

/-!
# Days by number

Statements about `Date.ofOrdinal?` and `DateTime.ofInstant`: every number within the calendar is the number of a day
(`ordinal_ofOrdinal?`) and of one only (`ordinal_inj`), and every instant is that of the date and time it is shown as
(`toInstant_ofInstant`).
-/

namespace Winnow

namespace Date

/-- A year has 365 days, a leap year one more. -/
theorem daysBeforeMonth_thirteen (year : Nat) : daysBeforeMonth year 13 = if isLeapYear year then 366 else 365 := by
  simp only [daysBeforeMonth, daysInMonth]
  split <;> rfl

/-- The month and the day found for a day of a year are a month and a day of it, and count to that day. -/
theorem monthAndDay_count {year fuel month rest : Nat} (hmonth : 1 ≤ month) (hfuel : month + fuel = 12)
    (hrest : daysBeforeMonth year month + rest < daysBeforeMonth year 13) :
    1 ≤ (monthAndDay year fuel month rest).1 ∧ (monthAndDay year fuel month rest).1 ≤ 12 ∧
      1 ≤ (monthAndDay year fuel month rest).2 ∧
      (monthAndDay year fuel month rest).2 ≤ daysInMonth year (monthAndDay year fuel month rest).1 ∧
      daysBeforeMonth year (monthAndDay year fuel month rest).1 + (monthAndDay year fuel month rest).2 =
        daysBeforeMonth year month + rest + 1 := by
  induction fuel generalizing month rest with
  | zero =>
    obtain rfl : month = 12 := by omega
    have hlast : daysBeforeMonth year 13 = daysBeforeMonth year 12 + daysInMonth year 12 := rfl
    simp only [monthAndDay]
    omega
  | succ fuel ih =>
    unfold monthAndDay
    split
    · next hlt => simp only; omega
    · next hge =>
      have hnext : daysBeforeMonth year (month + 1) = daysBeforeMonth year month + daysInMonth year month := rfl
      have hle : 1 ≤ month + 1 := by omega
      have hleft : daysBeforeMonth year (month + 1) + (rest - daysInMonth year month) < daysBeforeMonth year 13 := by
        omega
      have := ih hle (by omega) hleft
      omega

/-- The days before a year, by the groups of four hundred, a hundred, four and one years that are over by then. -/
theorem daysBeforeYear_groups {a b c d : Nat} (hb : b ≤ 3) (hc : c ≤ 24) (hd : d ≤ 3) :
    daysBeforeYear (400 * a + 100 * b + 4 * c + d + 1) = 146097 * a + 36524 * b + 1461 * c + 365 * d := by
  have h4 : (400 * a + 100 * b + 4 * c + d) / 4 = 100 * a + 25 * b + c := by omega
  have h100 : (400 * a + 100 * b + 4 * c + d) / 100 = 4 * a + b := by omega
  have h400 : (400 * a + 100 * b + 4 * c + d) / 400 = a := by omega
  simp only [daysBeforeYear, Nat.add_sub_cancel, h4, h100, h400]
  omega

/-- A year is a leap year when it ends a group of four, unless that ends a hundred years and not four hundred. -/
theorem isLeapYear_groups {a b c d : Nat} (hb : b ≤ 3) (hc : c ≤ 24) (hd : d ≤ 3) :
    isLeapYear (400 * a + 100 * b + 4 * c + d + 1) = true ↔ d = 3 ∧ (c ≠ 24 ∨ b = 3) := by
  simp only [isLeapYear, Bool.and_eq_true, Bool.or_eq_true, beq_iff_eq, bne_iff_ne, ne_eq]
  omega

/-- The year found for a day by its number is a year of the calendar, and the day is one of its days. -/
theorem yearAndRest_count {n : Nat} (hpos : 1 ≤ n) (hlast : n ≤ 3652059) :
    1 ≤ (yearAndRest n).1 ∧ (yearAndRest n).1 ≤ 9999 ∧ daysBeforeYear (yearAndRest n).1 + (yearAndRest n).2 + 1 = n ∧
      (yearAndRest n).2 < daysBeforeMonth (yearAndRest n).1 13 := by
  rw [daysBeforeMonth_thirteen]
  -- the quotients of the division into groups, named so that the arithmetic is about them alone
  obtain ⟨a, ha⟩ : ∃ a, (n - 1) / 146097 = a := ⟨_, rfl⟩
  obtain ⟨r, hr⟩ : ∃ r, (n - 1) % 146097 = r := ⟨_, rfl⟩
  obtain ⟨b, hb⟩ : ∃ b, min 3 (r / 36524) = b := ⟨_, rfl⟩
  obtain ⟨c, hc⟩ : ∃ c, (r - b * 36524) / 1461 = c := ⟨_, rfl⟩
  obtain ⟨s, hs⟩ : ∃ s, (r - b * 36524) % 1461 = s := ⟨_, rfl⟩
  obtain ⟨d, hd⟩ : ∃ d, min 3 (s / 365) = d := ⟨_, rfl⟩
  simp only [yearAndRest, ha, hr, hb, hc, hs, hd]
  have hb3 : b ≤ 3 := by omega
  have hc24 : c ≤ 24 := by omega
  have hd3 : d ≤ 3 := by omega
  rw [daysBeforeYear_groups hb3 hc24 hd3]
  refine ⟨by omega, by omega, by omega, ?_⟩
  have hleap := isLeapYear_groups (a := a) hb3 hc24 hd3
  split
  · omega
  · next h =>
    rw [hleap] at h
    omega

/-- Every number within the calendar is the number of a day. -/
theorem ordinal_ofOrdinal? {n : Nat} (hpos : 1 ≤ n) (hlast : n ≤ 3652059) :
    ∃ d, ofOrdinal? n = some d ∧ d.ordinal = n := by
  obtain ⟨hy, hy', hcount, hrest⟩ := yearAndRest_count hpos hlast
  have hmonths : daysBeforeMonth (yearAndRest n).1 1 + (yearAndRest n).2 < daysBeforeMonth (yearAndRest n).1 13 := by
    simpa [daysBeforeMonth, daysInMonth] using hrest
  have hfuel : 1 + 11 = 12 := rfl
  obtain ⟨hm, hm', hd, hd', hday⟩ := monthAndDay_count (Nat.le_refl 1) hfuel hmonths
  refine ⟨⟨_, _, _, ⟨hy, hy'⟩, ⟨hm, hm'⟩, ⟨hd, hd'⟩⟩, ?_, ?_⟩
  · simp [ofOrdinal?, of?, Nat.ne_of_gt hpos, hy, hy', hm, hm', hd, hd']
  · have hfirst : daysBeforeMonth (yearAndRest n).1 1 = 0 := rfl
    simp only [ordinal]
    omega

/-- The day some days after the first has the number that follows from it. -/
theorem ordinal_afterFirst {days : Nat} (h : days < 3652059) : (afterFirst days).ordinal = days + 1 := by
  obtain ⟨d, hd, hord⟩ := ordinal_ofOrdinal? (n := days + 1) (by omega) (by omega)
  simp [afterFirst, hd, hord]

theorem daysBeforeMonth_mono (year : Nat) {m n : Nat} (h : m ≤ n) :
    daysBeforeMonth year m ≤ daysBeforeMonth year n := by
  induction h with
  | refl => exact Nat.le_refl _
  | step _ ih => exact Nat.le_trans ih (Nat.le_add_right _ _)

/-- No day comes before the first one of year 1. -/
theorem ordinal_pos (d : Date) : 1 ≤ d.ordinal :=
  Nat.le_add_left_of_le d.day_range.1

/-- No day comes after the last one of year 9999. -/
theorem ordinal_le (d : Date) : d.ordinal ≤ 3652059 := by
  have hyear := d.year_range
  have hday := d.day_range.2
  have hmonth : daysBeforeMonth d.year d.month + daysInMonth d.year d.month ≤ daysBeforeMonth d.year 13 :=
    daysBeforeMonth_mono d.year (Nat.succ_le_succ d.month_range.2)
  unfold ordinal
  -- only the last year needs its own length; a year before it ends long before the calendar does
  by_cases hlast : d.year = 9999
  · have hbefore : daysBeforeYear 9999 = 3651694 := rfl
    have hlength : daysBeforeMonth 9999 13 = 365 := rfl
    rw [hlast] at hmonth hday ⊢
    omega
  · have hlength : daysBeforeMonth d.year 13 ≤ 366 := by
      rw [daysBeforeMonth_thirteen]
      split <;> omega
    unfold daysBeforeYear
    omega

/-- A year is over when the next one begins. -/
theorem daysBeforeYear_succ {year : Nat} (h : 1 ≤ year) :
    daysBeforeYear (year + 1) = daysBeforeYear year + daysBeforeMonth year 13 := by
  obtain ⟨n, rfl⟩ := Nat.exists_eq_add_of_le' h
  have hleap : isLeapYear (n + 1) = true ↔ 4 ∣ n + 1 ∧ (¬100 ∣ n + 1 ∨ 400 ∣ n + 1) := by
    simp [isLeapYear, Nat.dvd_iff_mod_eq_zero]
  rw [daysBeforeMonth_thirteen]
  simp only [daysBeforeYear, Nat.add_sub_cancel, Nat.succ_div, hleap]
  have hsize : n / 100 ≤ n := Nat.div_le_self n 100
  split_ifs <;> omega

theorem daysBeforeYear_mono {y z : Nat} (hy : 1 ≤ y) (h : y ≤ z) : daysBeforeYear y ≤ daysBeforeYear z := by
  induction h with
  | refl => exact Nat.le_refl _
  | step hz ih =>
    rw [Nat.succ_eq_add_one, daysBeforeYear_succ (Nat.le_trans hy hz)]
    exact Nat.le_trans ih (Nat.le_add_right _ _)

/-- A day comes before those of the later months of its year. -/
theorem ordinal_lt_of_month_lt {d e : Date} (hyear : d.year = e.year) (h : d.month < e.month) :
    d.ordinal < e.ordinal := by
  have hmonth : daysBeforeMonth d.year d.month + daysInMonth d.year d.month ≤ daysBeforeMonth d.year e.month :=
    daysBeforeMonth_mono d.year h
  have hday := d.day_range.2
  have hday' := e.day_range.1
  unfold ordinal
  rw [← hyear]
  omega

/-- A day comes before those of later years. -/
theorem ordinal_lt_of_year_lt {d e : Date} (h : d.year < e.year) : d.ordinal < e.ordinal := by
  have hmonth : daysBeforeMonth d.year d.month + daysInMonth d.year d.month ≤ daysBeforeMonth d.year 13 :=
    daysBeforeMonth_mono d.year (Nat.succ_le_succ d.month_range.2)
  have hyear := daysBeforeYear_mono (Nat.le_succ_of_le d.year_range.1) (Nat.succ_le_of_lt h)
  rw [Nat.succ_eq_add_one, daysBeforeYear_succ d.year_range.1] at hyear
  have hday := d.day_range.2
  have hday' := e.day_range.1
  unfold ordinal
  omega

/-- No two days have the same number. -/
theorem ordinal_inj {d e : Date} (h : d.ordinal = e.ordinal) : d = e := by
  have hyear : d.year = e.year := by
    rcases Nat.lt_trichotomy d.year e.year with hlt | heq | hgt
    · exact absurd h (Nat.ne_of_lt (ordinal_lt_of_year_lt hlt))
    · exact heq
    · exact absurd h (Nat.ne_of_gt (ordinal_lt_of_year_lt hgt))
  have hmonth : d.month = e.month := by
    rcases Nat.lt_trichotomy d.month e.month with hlt | heq | hgt
    · exact absurd h (Nat.ne_of_lt (ordinal_lt_of_month_lt hyear hlt))
    · exact heq
    · exact absurd h (Nat.ne_of_gt (ordinal_lt_of_month_lt hyear.symm hgt))
  have hday : d.day = e.day := by
    unfold ordinal at h
    rw [hyear, hmonth] at h
    omega
  cases d
  cases e
  simp_all

end Date

/-- The microseconds of an instant lead back to it. -/
@[simp] theorem Instant.of?_micros (i : Instant) : Instant.of? i.micros = some i := by
  unfold Instant.of?
  split
  · rfl
  · next h => exact absurd ⟨Int.natCast_nonneg _, i.micros_lt⟩ h

namespace DateTime

/-- A date and time stands for the instant that its clock shows in universal time. -/
theorem toInstant_of_universalMicros {t : DateTime} {i : Instant} (h : t.universalMicros = i.micros) :
    t.toInstant = .ok i := by
  unfold toInstant toInstant?
  rw [h, Instant.of?_micros]

/-- The clock of universal time shows an instant as the microseconds that it is. -/
@[simp] theorem universalMicros_ofInstant (i : Instant) : (ofInstant i).universalMicros = i.micros := by
  have hday : i.day < 3652059 := by
    have := i.micros_lt
    simp only [Instant.day, microsPerDay]
    omega
  have htime : (TimeOfDay.ofMicros (i.micros % microsPerDay)).micros = i.micros % microsPerDay :=
    TimeOfDay.micros_ofMicros (Nat.mod_lt _ (by decide))
  have hsplit : i.day * microsPerDay + i.micros % microsPerDay = i.micros := Nat.div_add_mod' i.micros microsPerDay
  simp only [universalMicros, localMicros, ofInstant, Date.micros, Date.ordinal_afterFirst hday, htime,
    Nat.add_sub_cancel, hsplit, Option.elim, Offset.utc, Int.sub_zero]

/-- A date and time that stands for an instant is taken as it. -/
theorem toInstant_of_toInstant? {t : DateTime} {i : Instant} (h : t.toInstant? = some i) : t.toInstant = .ok i := by
  rw [toInstant, h]

theorem toInstant?_ofInstant (i : Instant) : (ofInstant i).toInstant? = some i := by
  rw [toInstant?, universalMicros_ofInstant, Instant.of?_micros]

/-- The date and time that shows an instant stands for it. -/
@[simp] theorem toInstant_ofInstant (i : Instant) : (ofInstant i).toInstant = .ok i :=
  toInstant_of_universalMicros (universalMicros_ofInstant i)

/-- The beginning of a day is within the calendar. -/
theorem exists_toInstant?_ofDate (d : Date) : ∃ i, (ofDate d).toInstant? = some i := by
  have hle := d.ordinal_le
  have hmidnight : TimeOfDay.midnight.micros = 0 := by decide
  have hlt : (d.ordinal - 1) * microsPerDay < 3652059 * 86400000000 := by
    have hpos := d.day_range.1
    simp only [Date.ordinal, microsPerDay] at hle ⊢
    omega
  refine ⟨⟨_, hlt⟩, ?_⟩
  rw [toInstant?, ← Instant.of?_micros ⟨_, hlt⟩]
  simp [universalMicros, localMicros, ofDate, Date.micros, hmidnight, Offset.utc]

end DateTime

/-- An instant as a value stands for itself. -/
theorem Value.toInstant_ofInstant (i : Instant) : (ofInstant i).toInstant = .ok (some i) := by
  rw [ofInstant, toInstant, DateTime.toInstant_ofInstant]
  rfl

end Winnow
