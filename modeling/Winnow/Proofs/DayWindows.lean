import Winnow.Proofs.Faults

/-!
# Days in universal time

A relative date stands for a day of universal time. A moment is compared with it by its own date in universal time
(`Registry.evaluate_daysAgo`): exactly by the bounds that are rounded down, and in whole milliseconds by those that are
rounded up. The window of a day reaches from its first instant to its last millisecond, so the windows of all days meet
no moment twice and leave out what comes after the last millisecond of its day (`Registry.evaluate_dayWindow_iff`).
-/

namespace Winnow

/-! ## Instants by date and time of day -/

/-- The last millisecond of a day. -/
def TimeOfDay.lastMilli : TimeOfDay :=
  { hour := 23, minute := 59, second := 59, micro := 999000 }

namespace Instant

/-- The date of an instant in universal time. -/
def date (i : Instant) : Date :=
  (DateTime.ofInstant i).date

/-- The time of day of an instant in universal time. -/
def timeOfDay (i : Instant) : TimeOfDay :=
  (DateTime.ofInstant i).time

/-- The day of an instant is within the calendar. -/
theorem day_lt (i : Instant) : i.day < 3652059 :=
  Nat.div_lt_of_lt_mul i.micros_lt

theorem ordinal_date (i : Instant) : i.date.ordinal = i.day + 1 :=
  Date.ordinal_afterFirst i.day_lt

theorem micros_timeOfDay (i : Instant) : i.timeOfDay.micros = i.micros % microsPerDay :=
  TimeOfDay.micros_ofMicros (Nat.mod_lt _ (by decide))

/-- A shift ends at the instant so many microseconds later. -/
theorem micros_of_shift? {i j : Instant} {micros : Int} (h : i.shift? micros = some j) :
    (j.micros : Int) = i.micros + micros := by
  unfold shift? of? at h
  split at h
  · next hrange =>
    cases h
    exact Int.toNat_of_nonneg hrange.1
  · cases h

/-- The last millisecond after the first instant of a day is a millisecond before the next day. -/
theorem micros_of_lastMilli? {start last : Instant} (h : start.lastMilli? = some last) :
    last.micros + 1000 = start.micros + microsPerDay := by
  obtain ⟨next, hnext, hlast⟩ := Option.bind_eq_some_iff.1 h
  have hnext := micros_of_shift? hnext
  have hlast := micros_of_shift? hlast
  omega

end Instant

/-! ## Bounds on numbers -/

namespace Bound

/-- A number is on the side of another that a bound asks for. -/
def Holds (b : Bound) (m n : Nat) : Prop :=
  match b with
  | lt => m < n
  | lte => m ≤ n
  | gt => n < m
  | gte => n ≤ m

instance (b : Bound) (m n : Nat) : Decidable (b.Holds m n) :=
  match b with
  | lt => inferInstanceAs (Decidable (m < n))
  | lte => inferInstanceAs (Decidable (m ≤ n))
  | gt => inferInstanceAs (Decidable (n < m))
  | gte => inferInstanceAs (Decidable (n ≤ m))

/-- The order of two numbers satisfies a bound when the first is on its side of the second. -/
theorem admits_compare (b : Bound) (m n : Nat) : b.admits (some (compare m n)) = decide (b.Holds m n) := by
  refine Bool.eq_iff_iff.2 ?_
  rw [decide_eq_true_iff]
  rcases Nat.lt_trichotomy m n with hlt | rfl | hgt
  · rw [Nat.compare_eq_lt.2 hlt]
    cases b <;> simp [admits, Holds] <;> omega
  · rw [Nat.compare_eq_eq.2 rfl]
    cases b <;> simp [admits, Holds]
  · rw [Nat.compare_eq_gt.2 hgt]
    cases b <;> simp [admits, Holds] <;> omega

theorem holds_add_right_iff {b : Bound} {m n : Nat} (k : Nat) : b.Holds (m + k) (n + k) ↔ b.Holds m n := by
  cases b <;> simp [Holds]

end Bound

/-! ## Relative dates as instants -/

namespace RelativeDate

variable {clock : Clock} {current : Instant} {days : Nat}

/-- The last millisecond of a day that another day comes after is told. -/
theorem ceil_ok (hnow : clock.now = .ok current) (h : days ≤ current.day)
    (hnext : current.day - days + 1 < 3652059) :
    ∃ last : Instant, last.micros + 1000 = (current.day - days + 1) * microsPerDay ∧
      ceil clock days = .ok last := by
  obtain ⟨start, hstart, hfloor⟩ := floor_ok hnow h
  obtain ⟨last, hlast⟩ := (exists_lastMilli_iff hstart).2 hnext
  refine ⟨last, ?_, ?_⟩
  · rw [Instant.micros_of_lastMilli? hlast, hstart, Nat.succ_mul]
  · rw [ceil, hfloor, ok_bind, hlast]
    rfl

end RelativeDate

namespace Registry

section Daily

variable {clock : Clock} {operand value v : Value} {current seen limit : Instant} {b : Bound} {days : Nat}

/-- A bound that is answered is resolved. -/
theorem exists_resolve_of_evaluate {answer : Bool}
    (h : (standard clock).evaluate (.within b operand) value = .ok answer) :
    ∃ limit, RelativeDate.resolve clock b operand = .ok limit := by
  rw [Condition.within, evaluate_compare] at h
  obtain ⟨limit, hlimit, -⟩ := bind_eq_ok h
  exact ⟨limit, hlimit⟩

/-- A moment is compared with a relative date as its instant is with the one that the date is resolved to. -/
theorem evaluate_within_of_resolve (hlimit : RelativeDate.resolve clock b (.daysAgo days) = .ok (.ofInstant limit))
    (hsingle : value.elements = [v]) (hseen : v.toInstant = .ok (some seen)) :
    (standard clock).evaluate (.within b (.daysAgo days)) value = .ok (decide (b.Holds seen.micros limit.micros)) := by
  have htemporal : (v.isTemporal || (Value.ofInstant limit).isTemporal) = true := Bool.or_true _
  have hpair : Comparable.of v (.ofInstant limit) = .ok (some (.instants seen limit)) := by
    rw [Comparable.of, if_pos htemporal, hseen, Value.toInstant_ofInstant]
    rfl
  have hwithin : ∀ w ∈ [v], ∃ pair, Comparable.of w (.ofInstant limit) = .ok (some pair) ∧
      pair.order = .ok (some (compare seen.micros limit.micros)) :=
    List.forall_mem_singleton.2 ⟨_, hpair, rfl⟩
  rw [Condition.within, evaluate_compare]
  show (RelativeDate.resolve clock b (.daysAgo days) >>= Comparison.withinBound b value.elements) = _
  rw [hlimit, ok_bind, hsingle, Comparison.withinBound_of b hwithin, List.any_cons, List.any_nil, Bool.or_false,
    Bound.admits_compare]

/-- A bound that is rounded down compares days. -/
theorem evaluate_within_floor (hb : b = .gte ∨ b = .lt) (hnow : clock.now = .ok current)
    (hdays : days ≤ current.day) (hsingle : value.elements = [v]) (hseen : v.toInstant = .ok (some seen)) :
    (standard clock).evaluate (.within b (.daysAgo days)) value =
      .ok (decide (b.Holds seen.day (current.day - days))) := by
  obtain ⟨start, hstart, hfloor⟩ := RelativeDate.floor_ok hnow hdays
  have hlimit : RelativeDate.resolve clock b (.daysAgo days) = .ok (.ofInstant start) := by
    rcases hb with rfl | rfl <;> simp [RelativeDate.resolve, hfloor]
  rw [evaluate_within_of_resolve hlimit hsingle hseen, hstart]
  refine congrArg Except.ok (decide_eq_decide.2 ?_)
  have hpos : 0 < microsPerDay := by decide
  rcases hb with rfl | rfl
  · exact (Nat.le_div_iff_mul_le hpos).symm
  · exact (Nat.div_lt_iff_lt_mul hpos).symm

/-- A bound that is rounded up compares with the last millisecond of the day. -/
theorem evaluate_within_ceil (hb : b = .gt ∨ b = .lte) (hnow : clock.now = .ok current)
    (hdays : days ≤ current.day) (hnext : current.day - days + 1 < 3652059) (hsingle : value.elements = [v])
    (hseen : v.toInstant = .ok (some seen)) :
    (standard clock).evaluate (.within b (.daysAgo days)) value =
      .ok (decide (b.Holds (seen.micros + 1000) ((current.day - days + 1) * microsPerDay))) := by
  obtain ⟨last, hlast, hceil⟩ := RelativeDate.ceil_ok hnow hdays hnext
  have hlimit : RelativeDate.resolve clock b (.daysAgo days) = .ok (.ofInstant last) := by
    rcases hb with rfl | rfl <;> simp [RelativeDate.resolve, hceil]
  rw [evaluate_within_of_resolve hlimit hsingle hseen, ← hlast]
  exact congrArg Except.ok (decide_eq_decide.2 (Bound.holds_add_right_iff 1000).symm)

/-- A moment is compared with a relative date by its date in universal time: by the bounds that are rounded down
whenever the day is in the calendar, and by those that are rounded up when another day comes after it and the moment is
a whole number of milliseconds. -/
theorem evaluate_daysAgo {day : Date} (hnow : clock.now = .ok current)
    (hday : day.ordinal + days = current.date.ordinal) (hsingle : value.elements = [v])
    (hseen : v.toInstant = .ok (some seen)) :
    (standard clock).evaluate (.within .gte (.daysAgo days)) value =
        .ok (decide (day.ordinal ≤ seen.date.ordinal)) ∧
      (standard clock).evaluate (.within .lt (.daysAgo days)) value =
        .ok (decide (seen.date.ordinal < day.ordinal)) ∧
      ((∃ next : Date, next.ordinal = day.ordinal + 1) → 1000 ∣ seen.micros →
        (standard clock).evaluate (.within .gt (.daysAgo days)) value =
            .ok (decide (day.ordinal < seen.date.ordinal)) ∧
          (standard clock).evaluate (.within .lte (.daysAgo days)) value =
            .ok (decide (seen.date.ordinal ≤ day.ordinal))) := by
  have hpos := day.ordinal_pos
  rw [Instant.ordinal_date] at hday ⊢
  have hdays : days ≤ current.day := by omega
  refine ⟨?_, ?_, ?_⟩
  · rw [evaluate_within_floor (.inl rfl) hnow hdays hsingle hseen]
    exact congrArg Except.ok (decide_eq_decide.2 (by unfold Bound.Holds; omega))
  · rw [evaluate_within_floor (.inr rfl) hnow hdays hsingle hseen]
    exact congrArg Except.ok (decide_eq_decide.2 (by unfold Bound.Holds; omega))
  · rintro ⟨next, hnext⟩ ⟨millis, hmillis⟩
    have hlast := next.ordinal_le
    have hbefore : current.day - days + 1 < 3652059 := by omega
    have hseenDay : seen.day = seen.micros / 86400000000 := rfl
    constructor
    · rw [evaluate_within_ceil (.inl rfl) hnow hdays hbefore hsingle hseen]
      exact congrArg Except.ok (decide_eq_decide.2 (by unfold Bound.Holds microsPerDay; omega))
    · rw [evaluate_within_ceil (.inr rfl) hnow hdays hbefore hsingle hseen]
      exact congrArg Except.ok (decide_eq_decide.2 (by unfold Bound.Holds microsPerDay; omega))

/-- An evening by a clock three hours behind, when the leap day has begun in universal time. -/
def eveningBehind : DateTime :=
  ⟨{ year := 2028, month := 2, day := 28 }, { hour := 22, minute := 30, second := 15, micro := 1 },
    some { micros := -10800000000 }⟩

/-- A clock that shows it. -/
def eveningClock : Clock :=
  .showing eveningBehind Clock.atStart.system

/-- The same moment in universal time. -/
def leapNight : Instant :=
  { micros := 63970997415000001 }

/-- A quarter of a second after eleven in the evening of the leap day, in universal time. -/
def leapEvening : Instant :=
  { micros := 63971074800250000 }

/-- The day before the leap day. -/
def leapEve : Date :=
  { year := 2028, month := 2, day := 28 }

/-- By a clock where it is still the day before, the leap day has begun in universal time, and one day before it is the
day that the clock shows. A text that is dated the first of March is of the leap day in universal time. -/
theorem evaluate_daysAgo_leapEve :
    eveningBehind.toInstant? = some leapNight ∧ leapEve.ordinal + 1 = leapNight.date.ordinal ∧
      (Value.text "2028-03-01T04:30:00.250+05:30").toInstant = .ok (some leapEvening) ∧
      (standard eveningClock).evaluate (.within .gte (.daysAgo 1))
        (.list [.null, .text "2028-03-01T04:30:00.250+05:30"]) = .ok true ∧
      (standard eveningClock).evaluate (.within .lt (.daysAgo 1))
        (.list [.null, .text "2028-03-01T04:30:00.250+05:30"]) = .ok false ∧
      (∃ next : Date, next.ordinal = leapEve.ordinal + 1) ∧ 1000 ∣ leapEvening.micros ∧
      (standard eveningClock).evaluate (.within .gt (.daysAgo 1))
        (.list [.null, .text "2028-03-01T04:30:00.250+05:30"]) = .ok true ∧
      (standard eveningClock).evaluate (.within .lte (.daysAgo 1))
        (.list [.null, .text "2028-03-01T04:30:00.250+05:30"]) = .ok false := by
  have hshown : eveningBehind.toInstant? = some leapNight := by decide +kernel
  have hnow : eveningClock.now = .ok leapNight := Clock.now_showing hshown _
  have hday : leapEve.ordinal + 1 = leapNight.date.ordinal := by decide +kernel
  have hseen : (Value.text "2028-03-01T04:30:00.250+05:30").toInstant = .ok (some leapEvening) := rfl
  have hnext : ∃ next : Date, next.ordinal = leapEve.ordinal + 1 := ⟨leapNight.date, hday.symm⟩
  have hmillis : 1000 ∣ leapEvening.micros := by decide
  have hlater : leapEvening.date.ordinal = leapEve.ordinal + 1 := by decide +kernel
  have hsingle : (Value.list [.null, .text "2028-03-01T04:30:00.250+05:30"]).elements =
      [.text "2028-03-01T04:30:00.250+05:30"] := rfl
  obtain ⟨hgte, hlt, hmilli⟩ := evaluate_daysAgo hnow hday hsingle hseen
  obtain ⟨hgt, hlte⟩ := hmilli hnext hmillis
  simp only [hlater, Nat.le_succ, Nat.lt_succ_self, Nat.not_succ_lt_self, Nat.not_succ_le_self, decide_true,
    decide_false] at hgte hlt hgt hlte
  exact ⟨hshown, hday, hseen, hgte, hlt, hnext, hmillis, hgt, hlte⟩

/-- The condition on a field to be within the day a number of days before now. -/
def dayWindow (days : Nat) : Condition :=
  .combine .all ([.within .gte (.daysAgo days), .within .lte (.daysAgo days)].map .condition)

/-- A moment is in the window of its own day, if another day comes after that and the moment is not after its last
millisecond, and in no other window. -/
theorem evaluate_dayWindow_eq_true_iff (hnow : clock.now = .ok current) (hsingle : value.elements = [v])
    (hseen : v.toInstant = .ok (some seen)) :
    (standard clock).evaluate (dayWindow days) value = .ok true ↔
      seen.day + days = current.day ∧ seen.day + 1 < 3652059 ∧
        seen.timeOfDay.micros ≤ TimeOfDay.lastMilli.micros := by
  have hlastMilli : TimeOfDay.lastMilli.micros = 86399999000 := by decide
  have hseenDay : seen.day = seen.micros / 86400000000 := rfl
  have htime : seen.timeOfDay.micros = seen.micros % 86400000000 := seen.micros_timeOfDay
  rw [dayWindow, evaluate_all, allPass_eq_true_iff, List.forall_mem_cons, List.forall_mem_singleton]
  constructor
  · rintro ⟨hgte, hlte⟩
    obtain ⟨hdays, hnext⟩ := (RelativeDate.exists_resolve_iff hnow .lte days).1 (exists_resolve_of_evaluate hlte)
    have hbefore := hnext (.inr rfl)
    rw [evaluate_within_floor (.inl rfl) hnow hdays hsingle hseen] at hgte
    rw [evaluate_within_ceil (.inr rfl) hnow hdays hbefore hsingle hseen] at hlte
    have hfrom : current.day - days ≤ seen.day := of_decide_eq_true (Except.ok.inj hgte)
    have hto : seen.micros + 1000 ≤ (current.day - days + 1) * 86400000000 := of_decide_eq_true (Except.ok.inj hlte)
    omega
  · rintro ⟨hday, hbefore, hmilli⟩
    have hdays : days ≤ current.day := by omega
    have hown : current.day - days = seen.day := by omega
    rw [evaluate_within_floor (.inl rfl) hnow hdays hsingle hseen,
      evaluate_within_ceil (.inr rfl) hnow hdays (by omega) hsingle hseen, hown]
    refine ⟨congrArg Except.ok (decide_eq_true ?_), congrArg Except.ok (decide_eq_true ?_)⟩
    · exact Nat.le_refl _
    · unfold Bound.Holds microsPerDay
      omega

/-- Of the moments up to now, each that is not after the last millisecond of its day is in the window of one day, the
number of days from its date to that of now before it, and each later one is in no window. -/
theorem evaluate_dayWindow_iff {next : Date} (hnow : clock.now = .ok current) (hsingle : value.elements = [v])
    (hseen : v.toInstant = .ok (some seen)) (hpast : seen.date.ordinal ≤ current.date.ordinal)
    (hnext : next.ordinal = seen.date.ordinal + 1) :
    (∀ days, (standard clock).evaluate (dayWindow days) value = .ok true ↔
        days = current.date.ordinal - seen.date.ordinal ∧ seen.timeOfDay.micros ≤ TimeOfDay.lastMilli.micros) ∧
      ((∃! days, (standard clock).evaluate (dayWindow days) value = .ok true) ↔
        seen.timeOfDay.micros ≤ TimeOfDay.lastMilli.micros) := by
  have hlast := next.ordinal_le
  rw [Instant.ordinal_date, Instant.ordinal_date] at hpast
  rw [Instant.ordinal_date] at hnext
  have hwindow : ∀ days, (standard clock).evaluate (dayWindow days) value = .ok true ↔
      days = current.date.ordinal - seen.date.ordinal ∧ seen.timeOfDay.micros ≤ TimeOfDay.lastMilli.micros := by
    intro days
    rw [evaluate_dayWindow_eq_true_iff hnow hsingle hseen, Instant.ordinal_date, Instant.ordinal_date]
    omega
  refine ⟨hwindow, ?_⟩
  constructor
  · rintro ⟨days, hdays, -⟩
    exact ((hwindow days).1 hdays).2
  · intro hmilli
    exact ⟨_, (hwindow _).2 ⟨rfl, hmilli⟩, fun days hdays => ((hwindow days).1 hdays).1⟩

/-- A time of the day two days before the leap day, in no zone. -/
def dayBeforeEve (time : TimeOfDay) : DateTime :=
  ⟨{ year := 2028, month := 2, day := 27 }, time, none⟩

/-- The last millisecond of the day two days before. -/
def lastOfDay : Instant :=
  { micros := 63970905599999000 }

/-- The last millisecond of a day is in the window of that day only. -/
theorem evaluate_dayWindow_lastMilli :
    (dayBeforeEve .lastMilli).toInstant? = some lastOfDay ∧ lastOfDay.date.ordinal ≤ leapNight.date.ordinal ∧
      leapEve.ordinal = lastOfDay.date.ordinal + 1 ∧
      (standard eveningClock).evaluate (dayWindow 2) (.datetime (dayBeforeEve .lastMilli)) = .ok true ∧
      ∃! days, (standard eveningClock).evaluate (dayWindow days) (.datetime (dayBeforeEve .lastMilli)) =
        .ok true := by
  have hshown : eveningBehind.toInstant? = some leapNight := by decide +kernel
  have hnow : eveningClock.now = .ok leapNight := Clock.now_showing hshown _
  have hseen : (dayBeforeEve .lastMilli).toInstant? = some lastOfDay := by decide +kernel
  have hpast : lastOfDay.date.ordinal ≤ leapNight.date.ordinal := by decide +kernel
  have hnext : leapEve.ordinal = lastOfDay.date.ordinal + 1 := by decide +kernel
  have hmilli : lastOfDay.timeOfDay.micros ≤ TimeOfDay.lastMilli.micros := by decide +kernel
  have hdays : 2 = leapNight.date.ordinal - lastOfDay.date.ordinal := by decide +kernel
  have hvalue : (Value.datetime (dayBeforeEve .lastMilli)).toInstant = .ok (some lastOfDay) := by
    rw [Value.toInstant, DateTime.toInstant_of_toInstant? hseen]
    rfl
  have hsingle : (Value.datetime (dayBeforeEve .lastMilli)).elements = [.datetime (dayBeforeEve .lastMilli)] := rfl
  obtain ⟨hwindow, hone⟩ := evaluate_dayWindow_iff hnow hsingle hvalue hpast hnext
  exact ⟨hseen, hpast, hnext, (hwindow 2).2 ⟨hdays, hmilli⟩, hone.2 hmilli⟩

/-- A time of day with half a millisecond left. -/
def halfMilliLeft : TimeOfDay :=
  { hour := 23, minute := 59, second := 59, micro := 999500 }

/-- The moment half a millisecond before the end of the day two days before. -/
def endOfDay : Instant :=
  { micros := 63970905599999500 }

/-- A moment within the last millisecond of a day in the past is in the window of no day. -/
theorem evaluate_dayWindow_halfMilliLeft :
    (dayBeforeEve halfMilliLeft).toInstant? = some endOfDay ∧ endOfDay.date.ordinal ≤ leapNight.date.ordinal ∧
      leapEve.ordinal = endOfDay.date.ordinal + 1 ∧
      ¬∃ days, (standard eveningClock).evaluate (dayWindow days) (.datetime (dayBeforeEve halfMilliLeft)) =
        .ok true := by
  have hshown : eveningBehind.toInstant? = some leapNight := by decide +kernel
  have hnow : eveningClock.now = .ok leapNight := Clock.now_showing hshown _
  have hseen : (dayBeforeEve halfMilliLeft).toInstant? = some endOfDay := by decide +kernel
  have hafter : ¬endOfDay.timeOfDay.micros ≤ TimeOfDay.lastMilli.micros := by decide +kernel
  have hvalue : (Value.datetime (dayBeforeEve halfMilliLeft)).toInstant = .ok (some endOfDay) := by
    rw [Value.toInstant, DateTime.toInstant_of_toInstant? hseen]
    rfl
  refine ⟨hseen, by decide +kernel, by decide +kernel, ?_⟩
  have hsingle : (Value.datetime (dayBeforeEve halfMilliLeft)).elements =
      [.datetime (dayBeforeEve halfMilliLeft)] := rfl
  rintro ⟨days, hdays⟩
  exact hafter ((evaluate_dayWindow_eq_true_iff hnow hsingle hvalue).1 hdays).2.2

end Daily

end Registry

end Winnow
