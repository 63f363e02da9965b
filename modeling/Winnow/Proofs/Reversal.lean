import Winnow.Proofs.TopItems

/-!
# Sorting in the other direction

Where no item has more than one value in the sort field, descending order is ascending order the other way round, but
for the items without a value, which are last in both and the other way round among themselves
(`Filter.sortItems_desc_eq_reverse`). The least and the greatest of such values are the same, so the marks of items do
not depend on the direction; the keys made of them are in the opposite order between two items that both have a value,
or both have none, and in the same order otherwise.
-/

namespace Winnow

/-! ## Marks and keys in both directions -/

/-- Marks are in descending order when they are in ascending order the other way round. -/
theorem Direction.ranked_desc_lt_iff {α : Type} [LinearOrder α] {a b : α} :
    Direction.desc.ranked a < Direction.desc.ranked b ↔ Direction.asc.ranked b < Direction.asc.ranked a :=
  Iff.rfl

namespace Kind

variable {k : Kind} {d : Direction} {values : List Value} {value : Value}

/-- Of no more than one value the mark is the same in either direction. -/
theorem markOf_of_length_le_one (h : values.length ≤ 1) (d : Direction) : k.markOf d values = k.markOf .asc values := by
  cases values with
  | nil => rw [markOf_eq_none, markOf_eq_none]
  | cons v rest =>
    obtain rfl : rest = [] := List.eq_nil_of_length_eq_zero (Nat.le_zero.1 (Nat.le_of_succ_le_succ h))
    cases hread : k.read v <;> cases d <;> simp [markOf, hread]

/-- The value that ranks an item is there when its values have a mark. -/
theorem Ranks.ne_null_iff (h : k.Ranks d values value) : value ≠ .null ↔ (k.markOf d values).isSome = true := by
  cases h with
  | none hempty =>
    rw [hempty, markOf_eq_none]
    simp
  | some hv ha hleast =>
    rw [markOf_eq_some hv ha hleast]
    simpa using ne_null_of_read (rankable_of_read ha).2

variable {I : Type} [LinearOrder I] {m n : Option k.Mark} {i j : I}

/-- A key with a mark comes before one without, in either direction. -/
theorem sortKey_lt_none (hm : m.isSome = true) : sortKey d m i < sortKey d none j := by
  obtain ⟨a, rfl⟩ := Option.isSome_iff_exists.1 hm
  rw [sortKey, sortKey, Prod.Lex.toLex_lt_toLex]
  simp [rankedOrLast]

/-- Two keys that both have marks, or both have none, are in the opposite order in the other direction. -/
theorem sortKey_desc_lt_iff (h : m.isSome = n.isSome) :
    sortKey .desc m i < sortKey .desc n j ↔ sortKey .asc n j < sortKey .asc m i := by
  simp only [sortKey, Prod.Lex.toLex_lt_toLex]
  cases m with
  | none =>
    cases n with
    | none => simp [rankedOrLast, Direction.ranked_desc_lt_iff]
    | some b => cases h
  | some a =>
    cases n with
    | none => cases h
    | some b => simp [rankedOrLast, Direction.ranked_inj, Direction.ranked_desc_lt_iff, eq_comm]

/-- Items all of which have marks, or none, that are in ascending order are in descending order the other way round. -/
theorem pairwise_reverse_sortKey {α : Type} {mark : α → Option k.Mark} {idMark : α → I} {part : List α}
    (hsame : ∀ x ∈ part, ∀ y ∈ part, (mark x).isSome = (mark y).isSome)
    (horder : part.Pairwise fun x y => sortKey .asc (mark x) (idMark x) < sortKey .asc (mark y) (idMark y)) :
    part.reverse.Pairwise fun x y => sortKey .desc (mark x) (idMark x) < sortKey .desc (mark y) (idMark y) := by
  refine List.pairwise_reverse.2 (horder.imp_of_mem ?_)
  intro x y hx hy hlt
  exact (sortKey_desc_lt_iff (hsame y hy x hx)).2 hlt

end Kind

namespace Filter

variable {α : Type} {f : Filter} {idField : String} {view : α → Value} {items : List α}

/-- Items that are ranked by a key are ranked by any other that is the same on them. -/
theorem RankedBy.congr {K : Type} [LinearOrder K] {key other : α → K} {rank : α → RankKey}
    (h : f.RankedBy idField view items key rank) (hkey : ∀ x ∈ items, key x = other x) :
    f.RankedBy idField view items other rank := by
  refine ⟨?_, h.rank_ok, ?_⟩
  · intro x hx y hy hequal
    exact h.inj x hx y hy ((hkey x hx).trans (hequal.trans (hkey y hy).symm))
  · intro x hx y hy
    rw [h.before_ok x hx y hy, hkey x hx, hkey y hy]

/-- Items ranked in both directions by the same marks are sorted into those with a mark and those without, each of the
two the other way round in the other direction. -/
theorem exists_sortItems_of_marks {I : Type} [LinearOrder I] {k : Kind} {mark : α → Option k.Mark} {idMark : α → I}
    (h : ∀ d, ∃ rank, { f with direction := d }.RankedBy idField view items
      (fun x => Kind.sortKey d (mark x) (idMark x)) rank) (hnodup : items.Nodup) :
    ∃ present missing, (present ++ missing).Perm items ∧ (∀ x ∈ present, (mark x).isSome = true) ∧
      (∀ x ∈ missing, mark x = none) ∧
      { f with direction := .asc }.sortItems idField view items = .ok (present ++ missing) ∧
      { f with direction := .desc }.sortItems idField view items = .ok (present.reverse ++ missing.reverse) := by
  obtain ⟨_, hasc⟩ := h .asc
  obtain ⟨_, hdesc⟩ := h .desc
  have hpart (p : α → Bool) := hasc.exists_sorted (List.filter_subset_self items) (hnodup.filter p)
  obtain ⟨present, hpresent, hpresentOrder⟩ := hpart fun x => (mark x).isSome
  obtain ⟨missing, hmissing, hmissingOrder⟩ := hpart fun x => !(mark x).isSome
  have hsome : ∀ x ∈ present, (mark x).isSome = true := fun x hx => (List.mem_filter.1 (hpresent.subset hx)).2
  have hnone : ∀ x ∈ missing, mark x = none := by
    intro x hx
    have hnot := (List.mem_filter.1 (hmissing.subset hx)).2
    exact Option.not_isSome_iff_eq_none.1 fun hthere => by simp [hthere] at hnot
  have hperm : (present ++ missing).Perm items := (hpresent.append hmissing).trans (List.filter_append_perm _ items)
  refine ⟨present, missing, hperm, hsome, hnone, ?_, ?_⟩
  · refine hasc.sortItems_eq (List.Subset.refl items) hperm (List.pairwise_append.2 ⟨hpresentOrder, hmissingOrder, ?_⟩)
    intro x hx y hy
    rw [hnone y hy]
    exact Kind.sortKey_lt_none (hsome x hx)
  · have hturned := (present.reverse_perm.append missing.reverse_perm).trans hperm
    refine hdesc.sortItems_eq (List.Subset.refl items) hturned (List.pairwise_append.2 ⟨?_, ?_, ?_⟩)
    · exact Kind.pairwise_reverse_sortKey (fun x hx y hy => (hsome x hx).trans (hsome y hy).symm) hpresentOrder
    · exact Kind.pairwise_reverse_sortKey (fun x hx y hy => by rw [hnone x hx, hnone y hy]) hmissingOrder
    · intro x hx y hy
      rw [hnone y (List.mem_reverse.1 hy)]
      exact Kind.sortKey_lt_none (hsome x (List.mem_reverse.1 hx))

/-- Items with no more than one value each are ranked in both directions by the same marks; an item has a mark when it
has a sort value, and none has without a sort. -/
theorem CanOrder.exists_marks_both (h : f.CanOrder idField (items.map view))
    (hone : f.hasSort idField = true → ∀ x ∈ items, ∀ source, f.sortSource (view x) = .ok source →
      source.elements.length ≤ 1) :
    ∃ (k : Kind) (mark : α → Option k.Mark) (idMark : α → Nat), items.Nodup ∧
      (∀ d, ∃ rank, { f with direction := d }.RankedBy idField view items
        (fun x => Kind.sortKey d (mark x) (idMark x)) rank) ∧
      (∀ x ∈ items, ∀ d, ∃ value,
        { f with direction := d }.sortValue idField (view x) = .ok value ∧ (value ≠ .null ↔ (mark x).isSome = true)) ∧
      (f.hasSort idField = false → ∀ x, mark x = none) := by
  obtain ⟨idMark, horder⟩ := h.exists_idMark
  obtain ⟨k, values, hvalues, hsource⟩ := h.exists_ranks
  have hmark : ∀ x ∈ items, ∀ d, k.markOf d (values (view x)) = k.markOf .asc (values (view x)) := by
    intro x hx
    refine Kind.markOf_of_length_le_one ?_
    rcases hsource (view x) with hnil | ⟨hsort, source, hlooked, helements⟩
    · rw [hnil]
      exact Nat.zero_le 1
    · rw [← helements]
      exact hone hsort x hx source hlooked
  have hkeys (d : Direction) := rankedBy_sortKey (f := { f with direction := d }) horder
    (List.pairwise_map.1 h.distinct) fun x hx => hvalues x hx d
  refine ⟨k, fun x => k.markOf .asc (values (view x)), idMark, (hkeys .asc).2, ?_, ?_, ?_⟩
  · intro d
    obtain ⟨⟨rank, hrank⟩, -⟩ := hkeys d
    exact ⟨rank, hrank.congr fun x hx => congrArg (fun m => Kind.sortKey d m (idMark x)) (hmark x hx d)⟩
  · intro x hx d
    obtain ⟨value, hvalue, hranks⟩ := hvalues x hx d
    refine ⟨value, hvalue, ?_⟩
    rw [hranks.ne_null_iff, hmark x hx d]
  · intro hsort x
    rcases hsource (view x) with hnil | ⟨hsorted, -⟩
    · simp only [hnil, Kind.markOf_eq_none]
    · rw [hsort] at hsorted
      cases hsorted

/-- Items with no more than one value each that the sort looks at are sorted in descending order as in ascending order,
but the other way round among those with a value and among those without; where nothing but the identifier is looked at,
the whole is the other way round. -/
theorem sortItems_desc_eq_reverse (h : f.CanOrder idField (items.map view))
    (hone : f.hasSort idField = true → ∀ x ∈ items, ∀ source, f.sortSource (view x) = .ok source →
      source.elements.length ≤ 1) :
    ∃ present missing, (present ++ missing).Perm items ∧
      { f with direction := .asc }.sortItems idField view items = .ok (present ++ missing) ∧
      (∀ x ∈ present, ∀ d, ∃ value, { f with direction := d }.sortValue idField (view x) = .ok value ∧ value ≠ .null) ∧
      (∀ x ∈ missing, ∀ d, { f with direction := d }.sortValue idField (view x) = .ok .null) ∧
      { f with direction := .desc }.sortItems idField view items = .ok (present.reverse ++ missing.reverse) ∧
      (f.hasSort idField = false →
        { f with direction := .desc }.sortItems idField view items = .ok (present ++ missing).reverse) := by
  obtain ⟨k, mark, idMark, hnodup, hranked, hvalues, hunsorted⟩ := h.exists_marks_both hone
  obtain ⟨present, missing, hperm, hsome, hnone, hasc, hdesc⟩ := exists_sortItems_of_marks hranked hnodup
  refine ⟨present, missing, hperm, hasc, ?_, ?_, hdesc, ?_⟩
  · intro x hx d
    obtain ⟨value, hvalue, hthere⟩ := hvalues x (hperm.subset (List.mem_append_left missing hx)) d
    exact ⟨value, hvalue, hthere.2 (hsome x hx)⟩
  · intro x hx d
    obtain ⟨value, hvalue, hthere⟩ := hvalues x (hperm.subset (List.mem_append_right present hx)) d
    have hnull : value = .null := by
      by_contra hne
      have hmark := hthere.1 hne
      rw [hnone x hx] at hmark
      cases hmark
    rw [hvalue, hnull]
  · intro hsort
    have hnil : present = [] := by
      refine List.eq_nil_iff_forall_not_mem.2 fun x hx => ?_
      have hmark := hsome x hx
      rw [hunsorted hsort x] at hmark
      cases hmark
    rw [hdesc, hnil, List.nil_append]
    rfl

/-- Items with one number or none, two of them with the same one. -/
def singleNumbers : List (Int × List Int) :=
  [(4, [3]), (1, []), (3, [1]), (2, [3]), (5, [])]

/-- The two items with the same number change places with the others that have one, and those without stay last. -/
theorem sortItems_desc_eq_reverse_singleNumbers :
    byNumbers.CanOrder "id" (singleNumbers.map viewNumbered) ∧
      ∃ present missing, (present ++ missing).Perm singleNumbers ∧
        present ++ missing = [(3, [1]), (2, [3]), (4, [3]), (1, []), (5, [])] ∧
        present.reverse ++ missing.reverse = [(4, [3]), (2, [3]), (3, [1]), (5, []), (1, [])] ∧
        (∀ x ∈ present, ∃ value, byNumbers.sortValue "id" (viewNumbered x) = .ok value ∧ value ≠ .null) ∧
        ∀ x ∈ missing, byNumbers.sortValue "id" (viewNumbered x) = .ok .null := by
  have horder : byNumbers.CanOrder "id" (singleNumbers.map viewNumbered) := canOrder_numbered rfl rfl rfl (by decide)
  have hone : ∀ x ∈ singleNumbers, ∀ source, byNumbers.sortSource (viewNumbered x) = .ok source →
      source.elements.length ≤ 1 := by
    intro x hx source hsource
    obtain rfl := Except.ok.inj ((Kind.sortSource_of_plain rfl rfl _).symm.trans hsource)
    rw [viewNumbered, elements_numbered, List.length_map]
    exact (by decide : ∀ x ∈ singleNumbers, x.2.length ≤ 1) x hx
  have hasc : { byNumbers with direction := .asc }.sortItems "id" viewNumbered singleNumbers =
      .ok [(3, [1]), (2, [3]), (4, [3]), (1, []), (5, [])] := rfl
  have hdesc : { byNumbers with direction := .desc }.sortItems "id" viewNumbered singleNumbers =
      .ok [(4, [3]), (2, [3]), (3, [1]), (5, []), (1, [])] := rfl
  obtain ⟨present, missing, hperm, hsorted, hpresent, hmissing, hturned, -⟩ :=
    sortItems_desc_eq_reverse horder fun _ => hone
  refine ⟨horder, present, missing, hperm, ?_, ?_, fun x hx => hpresent x hx .asc, fun x hx => hmissing x hx .asc⟩
  · exact Except.ok.inj (hsorted.symm.trans hasc)
  · exact Except.ok.inj (hturned.symm.trans hdesc)

end Filter

end Winnow
