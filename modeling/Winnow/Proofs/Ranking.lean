import Mathlib.Data.Prod.Lex
import Mathlib.Order.WithBot
import Winnow.Proofs.Scale

/-!
# The rank of items

Items whose sort values and identifiers are marks on scales are ranked in a linear order: by the mark of the sort
value, those without one last, and then by that of the identifier, both in the direction of the sort (`Key`). A test of
two rank keys tells which comes first in that order (`RankKey.before_eq`).
-/

namespace Winnow

/-! ## Directions -/

namespace Direction

/-- Marks in the order of a direction. -/
def Ranked (d : Direction) (α : Type) : Type :=
  match d with
  | asc => α
  | desc => αᵒᵈ

instance (d : Direction) (α : Type) [LinearOrder α] : LinearOrder (d.Ranked α) :=
  match d with
  | asc => inferInstanceAs (LinearOrder α)
  | desc => inferInstanceAs (LinearOrder αᵒᵈ)

/-- A mark in the order of a direction. -/
def ranked (d : Direction) {α : Type} (a : α) : d.Ranked α :=
  match d with
  | asc => a
  | desc => OrderDual.toDual a

theorem ranked_inj {d : Direction} {α : Type} {a b : α} : d.ranked a = d.ranked b ↔ a = b := by
  cases d <;> exact Iff.rfl

variable {d : Direction} {α : Type} [LinearOrder α] {a b : α}

/-- The order of two marks in a direction is that seen from it. -/
theorem orient_compare_eq_lt : d.orient (compare a b) = .lt ↔ d.ranked a < d.ranked b := by
  cases d with
  | asc => exact compare_lt_iff_lt
  | desc =>
    rw [orient, Ordering.swap_eq_lt]
    exact compare_gt_iff_gt

end Direction

/-! ## Keys -/

/-- What items are ranked by: the mark of a sort value, if there is one, and that of an identifier. -/
abbrev Key (d : Direction) (marks ids : Scale) : Type :=
  WithTop (d.Ranked marks.Mark) ×ₗ d.Ranked ids.Mark

/-- The mark of a sort value among others, none ranking last. -/
def rankedOrLast (d : Direction) {α : Type} : Option α → WithTop (d.Ranked α)
  | some a => d.ranked a
  | none => ⊤

/-- The key of a sort value and an identifier. -/
def keyOf (d : Direction) {marks ids : Scale} (m : Option marks.Mark) (i : ids.Mark) : Key d marks ids :=
  toLex (rankedOrLast d m, d.ranked i)

section Keys

variable {d : Direction} {marks ids : Scale} {a b : marks.Mark} {i j : ids.Mark}

/-- Keys with sort values are in the order of these, and of their identifiers where these are equal. -/
theorem keyOf_some_lt_some :
    keyOf d (some a) i < keyOf d (some b) j ↔ d.ranked a < d.ranked b ∨ a = b ∧ d.ranked i < d.ranked j := by
  rw [keyOf, keyOf, Prod.Lex.toLex_lt_toLex]
  simp [rankedOrLast, Direction.ranked_inj]

/-- A key with a sort value comes before one without. -/
theorem keyOf_some_lt_none : keyOf d (some a) i < keyOf d none j := by
  rw [keyOf, keyOf, Prod.Lex.toLex_lt_toLex]
  simp [rankedOrLast]

theorem not_keyOf_none_lt_some : ¬keyOf d none i < keyOf d (some b) j := by
  rw [keyOf, keyOf, Prod.Lex.toLex_lt_toLex]
  simp [rankedOrLast]

/-- Keys without a sort value are in the order of their identifiers. -/
theorem keyOf_none_lt_none : keyOf d (none : Option marks.Mark) i < keyOf d none j ↔ d.ranked i < d.ranked j := by
  rw [keyOf, keyOf, Prod.Lex.toLex_lt_toLex]
  simp [rankedOrLast]

/-- Equal keys have equal identifiers. -/
theorem eq_of_keyOf_eq {m n : Option marks.Mark} (h : keyOf d m i = keyOf d n j) : i = j :=
  Direction.ranked_inj.1 (congrArg (fun key => (ofLex key).2) h)

end Keys

/-- The form of the mark of a sort value, null for none. -/
def Scale.formOf (s : Scale) (m : Option s.Mark) : Value :=
  m.elim .null s.form

/-- The rank of two marks of a scale. -/
theorem rankOf_form (s : Scale) (a b : s.Mark) : rankOf (s.form a) (s.form b) = .ok (compare a b) := by
  rw [rankOf, Scale.orderOf_form]
  rfl

namespace RankKey

variable {d : Direction} {marks ids : Scale}

theorem rank_null_left {w : Value} (hw : w ≠ .null) (p q : Value) : rank d ⟨.null, p⟩ ⟨w, q⟩ = .ok .gt := by
  cases w with
  | null => exact absurd rfl hw
  | _ => rfl

theorem rank_null_right {v : Value} (hv : v ≠ .null) (p q : Value) : rank d ⟨v, p⟩ ⟨.null, q⟩ = .ok .lt := by
  cases v with
  | null => exact absurd rfl hv
  | _ => rfl

/-- Two keys with sort values are ranked by these, and by their identifiers where these are equal. -/
theorem rank_of_ne_null {v w : Value} (hv : v ≠ .null) (hw : w ≠ .null) (p q : Value) :
    rank d ⟨v, p⟩ ⟨w, q⟩ = (rankOf v w).bind fun order =>
      match order with
      | .eq => (rankOf p q).map d.orient
      | order => .ok (d.orient order) := by
  unfold rank
  split
  · next h _ => exact absurd h hv
  · next h _ => exact absurd h hw
  · next h _ => exact absurd h hv
  · rfl

/-- One key ranks before another in the order of their marks. -/
theorem before_eq (m n : Option marks.Mark) (i j : ids.Mark) :
    before d ⟨marks.formOf m, ids.form i⟩ ⟨marks.formOf n, ids.form j⟩ = .ok (decide (keyOf d m i < keyOf d n j)) := by
  suffices ∃ order, rank d ⟨marks.formOf m, ids.form i⟩ ⟨marks.formOf n, ids.form j⟩ = .ok order ∧
      (order = .lt ↔ keyOf d m i < keyOf d n j) by
    obtain ⟨order, hrank, hlt⟩ := this
    rw [before, hrank, map_ok, beq_eq_decide, decide_eq_decide.2 hlt]
  have hid : (rankOf (ids.form i) (ids.form j)).map d.orient = .ok (d.orient (compare i j)) := by
    rw [rankOf_form, map_ok]
  match m, n with
  | none, none => exact ⟨_, hid, Direction.orient_compare_eq_lt.trans keyOf_none_lt_none.symm⟩
  | none, some b =>
    exact ⟨.gt, rank_null_left (marks.form_ne_null b) _ _, nofun, fun h => absurd h not_keyOf_none_lt_some⟩
  | some a, none =>
    exact ⟨.lt, rank_null_right (marks.form_ne_null a) _ _, fun _ => keyOf_some_lt_none, fun _ => rfl⟩
  | some a, some b =>
    have hrank := rank_of_ne_null (d := d) (marks.form_ne_null a) (marks.form_ne_null b) (ids.form i) (ids.form j)
    rw [rankOf_form] at hrank
    by_cases hab : a = b
    · subst hab
      have hself : compare a a = .eq := compare_eq_iff_eq.2 rfl
      rw [hself] at hrank
      refine ⟨_, hrank.trans hid, Direction.orient_compare_eq_lt.trans ?_⟩
      rw [keyOf_some_lt_some]
      simp
    · have hne : compare a b ≠ .eq := compare_eq_iff_eq.not.2 hab
      refine ⟨d.orient (compare a b), hrank.trans ?_, Direction.orient_compare_eq_lt.trans ?_⟩
      · obtain ⟨order, horder⟩ : ∃ order, compare a b = order := ⟨_, rfl⟩
        rw [horder] at hne ⊢
        cases order with
        | eq => exact absurd rfl hne
        | lt => rfl
        | gt => rfl
      · rw [keyOf_some_lt_some]
        simp [hab]

end RankKey

/-! ## Sort values -/

/-- Whether a value holds one mark of a scale, or nothing. -/
def Scale.Holds (s : Scale) (v : Value) (m : Option s.Mark) : Prop :=
  v.elements.map s.read = m.toList.map some

/-- The sort value of an item is in the form of the mark that it holds. -/
theorem Filter.sortValue_of_holds {f : Filter} {idField : String} {item source : Value} {marks : Scale}
    {m : Option marks.Mark} (hsort : f.hasSort idField = true) (hsource : f.sortSource item = .ok source)
    (hm : marks.Holds source m) : f.sortValue idField item = .ok (marks.formOf m) := by
  rw [sortValue, if_pos hsort, hsource, ok_bind]
  cases m with
  | none =>
    have hnil : source.elements = [] := List.map_eq_nil_iff.1 hm
    rw [hnil]
    rfl
  | some a =>
    obtain ⟨v, rest, hcons, hv, hrest⟩ := List.map_eq_cons_iff.1 hm
    obtain rfl : rest = [] := List.map_eq_nil_iff.1 hrest
    rw [hcons, List.mapM_cons, Scale.rankable_of_read hv]
    rfl

end Winnow
