import Mathlib.Data.String.Basic
import Mathlib.Order.Lattice
import Winnow.Proofs.Calendar
import Winnow.Proofs.Matching
import Winnow.Ranking

/-!
# Scales

The values that items are sorted by are whole numbers, texts or dates, and those of one sort are all of one kind: they
are marks on a scale (`Scale`). On one scale the order of values, their equality and the form in which they are ranked
are those of their marks, and so are the answers of comparisons with a mark.
-/

namespace Winnow

/-- Instants are in the order of their microseconds. -/
instance : LinearOrder Instant :=
  LinearOrder.lift' Instant.micros fun i j h => by
    cases i
    cases j
    cases h
    rfl

/-- A kind of values that are in an order: whole numbers, texts, and dates with or without a time. -/
inductive Scale where
  | whole
  | text
  | time
  deriving DecidableEq

namespace Scale

/-- The marks of a scale. -/
def Mark : Scale → Type
  | whole => Int
  | text => String
  | time => Instant

instance (s : Scale) : LinearOrder s.Mark :=
  match s with
  | whole => inferInstanceAs (LinearOrder Int)
  | text => inferInstanceAs (LinearOrder String)
  | time => inferInstanceAs (LinearOrder Instant)

instance (s : Scale) : Inhabited s.Mark :=
  match s with
  | whole => ⟨(0 : Int)⟩
  | text => ⟨""⟩
  | time => ⟨Clock.atStart.system⟩

/-- The instant of a date, with or without a time, when it is within the calendar. -/
def readTime : Value → Option Instant
  | .date d => (DateTime.ofDate d).toInstant?
  | .datetime t => t.toInstant?
  | _ => none

/-- The mark of a value, if it is on the scale. -/
def read (s : Scale) (v : Value) : Option s.Mark :=
  match s with
  | whole => match v with
    | .int n => some n
    | _ => none
  | text => match v with
    | .text t => some t
    | _ => none
  | time => readTime v

/-- The form in which a mark is ranked. -/
def form : (s : Scale) → s.Mark → Value
  | whole, n => .int n
  | text, t => .text t
  | time, i => .ofInstant i

variable {s : Scale} {v : Value} {a b : s.Mark}

/-- The form of a mark is on the scale at that mark. -/
theorem read_form (s : Scale) (a : s.Mark) : s.read (s.form a) = some a := by
  cases s with
  | whole => rfl
  | text => rfl
  | time => exact DateTime.toInstant?_ofInstant a

/-- The form of a mark is not null. -/
theorem form_ne_null (s : Scale) (a : s.Mark) : s.form a ≠ .null := by
  cases s <;> exact Value.noConfusion

/-- A value on the scale of dates is a date of that instant. -/
theorem toInstant_of_readTime {i : Instant} (h : readTime v = some i) :
    v.isTemporal = true ∧ v.toInstant = .ok (some i) := by
  cases v with
  | date d =>
    rw [readTime] at h
    rw [Value.toInstant, DateTime.toInstant_of_toInstant? h]
    exact ⟨rfl, rfl⟩
  | datetime t =>
    rw [readTime] at h
    rw [Value.toInstant, DateTime.toInstant_of_toInstant? h]
    exact ⟨rfl, rfl⟩
  | _ => cases h

theorem eq_of_read_whole {n : Int} (h : whole.read v = some n) : v = .int n := by
  cases v with
  | int m => exact congrArg Value.int (Option.some.inj h)
  | _ => cases h

theorem eq_of_read_text {t : String} (h : text.read v = some t) : v = .text t := by
  cases v with
  | text u => exact congrArg Value.text (Option.some.inj h)
  | _ => cases h

/-- Outside the scale of dates, a value on a scale has the form of its mark. -/
theorem eq_form_of_read (hs : s ≠ time) (h : s.read v = some a) : v = s.form a := by
  cases s with
  | whole => exact eq_of_read_whole h
  | text => exact eq_of_read_text h
  | time => exact absurd rfl hs

/-- A value on a scale is ranked in the form of its mark. -/
theorem rankable_of_read (h : s.read v = some a) : rankable v = .ok (s.form a) := by
  cases s with
  | whole =>
    rw [eq_of_read_whole h]
    rfl
  | text =>
    rw [eq_of_read_text h]
    rfl
  | time =>
    obtain ⟨htemporal, hinstant⟩ := toInstant_of_readTime h
    rw [rankable, if_pos htemporal, hinstant]
    rfl

/-! ## Order and equality -/

/-- Whole numbers are in their order as values. -/
theorem order_int (n m : Int) : (Value.int n).order (.int m) = .ok (some (compare n m)) := by
  rw [LinearOrder.compare_eq_compareOfLessAndEq]
  show Value.orderQuantity (.int n) (.int m) (.ofInt n) (.ofInt m) = _
  rw [Value.orderQuantity, Quantity.compare_ofInt]
  rfl

/-- Texts are in their order as values. -/
theorem order_text (t u : String) : (Value.text t).order (.text u) = .ok (some (compare t u)) := by
  rw [LinearOrder.compare_eq_compareOfLessAndEq]
  rfl

/-- Instants are in their order as values. -/
theorem order_ofInstant (i j : Instant) :
    (Value.ofInstant i).order (.ofInstant j) = .ok (some (compare i.micros j.micros)) := by
  have hmicros : compare (i.micros : Int) (j.micros : Int) = compare i.micros j.micros := by
    rcases Nat.lt_trichotomy i.micros j.micros with h | h | h
    · rw [compare_lt_iff_lt.2 h, compare_lt_iff_lt.2 (Int.ofNat_lt.2 h)]
    · rw [compare_eq_iff_eq.2 h, compare_eq_iff_eq.2 (Int.natCast_inj.2 h)]
    · rw [compare_gt_iff_gt.2 h, compare_gt_iff_gt.2 (Int.ofNat_lt.2 h)]
  have horder : (DateTime.ofInstant i).order? (.ofInstant j) = some (compare i.micros j.micros) := by
    rw [DateTime.order?, DateTime.universalMicros_ofInstant, DateTime.universalMicros_ofInstant, hmicros]
    exact if_pos rfl
  show Value.orderScalar.known ((DateTime.ofInstant i).order? (.ofInstant j)) = _
  rw [horder]
  rfl

/-- The forms of two marks are in the order of the marks. -/
theorem orderOf_form (s : Scale) (a b : s.Mark) : orderOf (s.form a) (s.form b) = .ok (some (compare a b)) := by
  cases s with
  | whole => exact congrArg (Except.mapError Fault.ofOrder) (order_int a b)
  | text => exact congrArg (Except.mapError Fault.ofOrder) (order_text a b)
  | time => exact congrArg (Except.mapError Fault.ofOrder) (order_ofInstant a b)

/-- Whole numbers are equal as values when they are. -/
theorem same?_int (n m : Int) : (Value.int n).same? (.int m) = some (decide (n = m)) :=
  congrArg some (Quantity.same_ofInt n m)

/-- Texts are equal as values when they are. -/
theorem same?_text (t u : String) : (Value.text t).same? (.text u) = some (decide (t = u)) := by
  show some (t == u) = _
  rw [beq_eq_decide]

/-- A value on a scale is compared with a mark as its own mark is. -/
theorem comparable_of_read (h : s.read v = some a) (b : s.Mark) :
    ∃ pair, Comparable.of v (s.form b) = .ok (some pair) ∧ pair.same? = some (decide (a = b)) ∧
      pair.order = .ok (some (compare a b)) := by
  cases s with
  | whole =>
    obtain rfl := eq_of_read_whole h
    exact ⟨.values (.int a) (.int b), rfl, same?_int a b, order_int a b⟩
  | text =>
    obtain rfl := eq_of_read_text h
    exact ⟨.values (.text a) (.text b), rfl, same?_text a b, order_text a b⟩
  | time =>
    obtain ⟨htemporal, hinstant⟩ := toInstant_of_readTime h
    have hform : (time.form b).toInstant = .ok (some b) := Value.toInstant_ofInstant b
    refine ⟨.instants a b, ?_, ?_, rfl⟩
    · rw [Comparable.of, htemporal, hinstant, hform]
      rfl
    · by_cases hab : a = b
      · rw [decide_eq_true hab]
        exact congrArg some (beq_iff_eq.2 hab)
      · rw [decide_eq_false hab]
        exact congrArg some (beq_eq_false_iff_ne.2 hab)

/-! ## Comparisons with a mark -/

variable {values : List Value} {marks : List s.Mark}

/-- A test of the marks of some values. -/
theorem any_read (h : values.map s.read = marks.map some) (test : Option s.Mark → Bool) :
    (values.any fun v => test (s.read v)) = marks.any fun a => test (some a) := by
  have hmarks : (values.map s.read).any test = (marks.map some).any test := by rw [h]
  rwa [List.any_map, List.any_map] at hmarks

/-- Values that have marks have them each. -/
theorem exists_read (h : values.map s.read = marks.map some) : ∀ v ∈ values, ∃ a, s.read v = some a := by
  intro v hv
  obtain ⟨a, -, ha⟩ := List.mem_map.1 (h ▸ List.mem_map_of_mem hv)
  exact ⟨a, ha.symm⟩

/-- Values on a scale contain the form of a mark when one of them is at that mark. -/
theorem contains_form (h : values.map s.read = marks.map some) (b : s.Mark) :
    Comparison.contains values (s.form b) = .ok (marks.any fun a => decide (a = b)) := by
  refine (Comparison.contains_of fun v hv => ?_).trans
    (congrArg Except.ok (any_read h fun m => m.any fun a => decide (a = b)))
  obtain ⟨a, ha⟩ := exists_read h v hv
  obtain ⟨pair, hpair, hsame, -⟩ := comparable_of_read ha b
  exact ⟨pair, hpair, by rw [hsame, ha, Option.any_some]⟩

/-- Some of the values on a scale are within a bound at a mark when the marks of some are. -/
theorem withinBound_form (h : values.map s.read = marks.map some) (bound : Bound) (b : s.Mark) :
    Comparison.withinBound bound values (s.form b) = .ok (marks.any fun a => bound.admits (some (compare a b))) := by
  refine (Comparison.withinBound_of bound fun v hv => ?_).trans
    (congrArg Except.ok (any_read h fun m => bound.admits (m.map fun a => compare a b)))
  obtain ⟨a, ha⟩ := exists_read h v hv
  obtain ⟨pair, hpair, -, horder⟩ := comparable_of_read ha b
  exact ⟨pair, hpair, by rw [horder, ha, Option.map_some]⟩

variable (clock : Clock)

/-- A field equals the form of a mark when one of its values is at that mark. -/
theorem holds_eq_form (h : values.map s.read = marks.map some) (b : s.Mark) :
    Comparison.eq.holds clock values (s.form b) = .ok (marks.any fun a => decide (a = b)) := by
  rw [← contains_form h b]
  cases s <;> rfl

/-- A field is within a bound at the form of a mark when one of its values is. -/
theorem holds_bound_form (h : values.map s.read = marks.map some) (bound : Bound) (b : s.Mark) :
    (Comparison.bound bound).holds clock values (s.form b) =
      .ok (marks.any fun a => bound.admits (some (compare a b))) := by
  rw [← withinBound_form h bound b]
  cases s <;> rfl

end Scale

end Winnow
