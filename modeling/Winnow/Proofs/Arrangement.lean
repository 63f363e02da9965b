import Winnow.Proofs.Sorting
import Winnow.Selection

/-!
# Items arranged by keys

Items that a filter ranks by keys in a linear order (`Filter.RankedBy`) are sorted into the one arrangement of them that
is in the order of their keys (`Filter.RankedBy.sortItems_iff`).
-/

namespace Winnow

variable {α : Type}

/-- Items that a filter ranks by a key: their ranks are in the order of the keys, and no two have the same key. -/
structure Filter.RankedBy (f : Filter) (idField : String) (view : α → Value) (items : List α) {K : Type} [LinearOrder K]
    (key : α → K) (rank : α → RankKey) : Prop where
  inj : ∀ x ∈ items, ∀ y ∈ items, key x = key y → x = y
  rank_ok : ∀ x ∈ items, RankKey.of f idField (view x) = .ok (rank x)
  before_ok : ∀ x ∈ items, ∀ y ∈ items, RankKey.before f.direction (rank x) (rank y) = .ok (decide (key x < key y))

namespace Filter.RankedBy

variable {f : Filter} {idField : String} {view : α → Value} {items : List α} {K : Type} [LinearOrder K] {key : α → K}
  {rank : α → RankKey}

/-- The test of the sort compares the keys of items. -/
theorem before_map (h : f.RankedBy idField view items key rank) {part : List α} (hsub : part ⊆ items) :
    ∀ x ∈ part.map fun x => (rank x, x), ∀ y ∈ part.map fun x => (rank x, x),
      RankKey.before f.direction x.1 y.1 = .ok (decide (key x.2 < key y.2)) := by
  intro x hx y hy
  obtain ⟨x, hx', rfl⟩ := List.mem_map.1 hx
  obtain ⟨y, hy', rfl⟩ := List.mem_map.1 hy
  exact h.before_ok x (hsub hx') y (hsub hy')

/-- The test of the sort orders some of the items, with their ranks. -/
theorem ordered (h : f.RankedBy idField view items key rank) {part : List α} (hsub : part ⊆ items) :
    Sorting.Ordered (fun x y : RankKey × α => RankKey.before f.direction x.1 y.1) (part.map fun x => (rank x, x)) := by
  have hbefore := h.before_map hsub
  refine ⟨?_, ?_, ?_⟩
  · intro x hx y hy
    rw [hbefore x hx y hy]
    cases decide (key x.2 < key y.2)
    · exact .inr rfl
    · exact .inl rfl
  · intro x hx y hy hxy
    rw [hbefore x hx y hy] at hxy
    rw [hbefore y hy x hx, decide_eq_false (lt_asymm (of_decide_eq_true (Except.ok.inj hxy)))]
  · intro x hx y hy z hz hyx hzy
    rw [hbefore y hy x hx] at hyx
    rw [hbefore z hz y hy] at hzy
    have hxy := not_lt.1 (of_decide_eq_false (Except.ok.inj hyx))
    have hyz := not_lt.1 (of_decide_eq_false (Except.ok.inj hzy))
    rw [hbefore z hz x hx, decide_eq_false (hxy.trans hyz).not_gt]

/-- Some of the items are sorted by their keys. -/
theorem sortItems_eq (h : f.RankedBy idField view items key rank) {part out : List α} (hsub : part ⊆ items)
    (hperm : out.Perm part) (horder : out.Pairwise fun x y => key x < key y) :
    f.sortItems idField view part = .ok out := by
  have hkeyed : (part.mapM fun x => do return (← RankKey.of f idField (view x), x)) =
      Except.ok (part.map fun x => (rank x, x)) :=
    mapM_ok fun x hx => by rw [h.rank_ok x (hsub hx)]; rfl
  have hsorted : Sorting.sort (fun x y => RankKey.before f.direction x.1 y.1) (part.map fun x => (rank x, x)) =
      .ok (out.map fun x => (rank x, x)) := by
    refine Sorting.sort_eq_of_perm (h.ordered hsub) ?_ (hperm.map _) ?_
    · intro x hx y hy hxy hyx
      rw [h.before_map hsub x hx y hy] at hxy
      rw [h.before_map hsub y hy x hx] at hyx
      have hkey : key x.2 = key y.2 := le_antisymm (not_lt.1 (of_decide_eq_false (Except.ok.inj hyx)))
        (not_lt.1 (of_decide_eq_false (Except.ok.inj hxy)))
      obtain ⟨x, hx', rfl⟩ := List.mem_map.1 hx
      obtain ⟨y, hy', rfl⟩ := List.mem_map.1 hy
      rw [h.inj x (hsub hx') y (hsub hy') hkey]
    · refine List.pairwise_map.2 (horder.imp_of_mem ?_)
      intro x y hx hy hxy
      show RankKey.before f.direction (rank y) (rank x) = _
      rw [h.before_ok y (hsub (hperm.subset hy)) x (hsub (hperm.subset hx)), decide_eq_false (lt_asymm hxy)]
  rw [sortItems, hkeyed, ok_bind, hsorted, ok_bind, List.map_map]
  exact congrArg Except.ok (List.map_id out)

/-- Some of the items, none of them twice, have an arrangement in the order of their keys. -/
theorem exists_sorted (h : f.RankedBy idField view items key rank) {part : List α} (hsub : part ⊆ items)
    (hnodup : part.Nodup) : ∃ out : List α, out.Perm part ∧ out.Pairwise fun x y => key x < key y := by
  have hperm := List.mergeSort_perm part fun x y => decide (key x ≤ key y)
  have hle : (part.mergeSort fun x y => decide (key x ≤ key y)).Pairwise fun x y => decide (key x ≤ key y) = true := by
    refine List.pairwise_mergeSort ?_ ?_ part
    · intro a b c hab hbc
      exact decide_eq_true ((of_decide_eq_true hab).trans (of_decide_eq_true hbc))
    · intro a b
      simpa using le_total (key a) (key b)
  refine ⟨_, hperm, ((hperm.nodup_iff.2 hnodup).and hle).imp_of_mem ?_⟩
  intro x y hx hy hxy
  refine lt_of_le_of_ne (of_decide_eq_true hxy.2) fun hkey => hxy.1 ?_
  exact h.inj x (hsub (hperm.subset hx)) y (hsub (hperm.subset hy)) hkey

/-- The items, none of them twice, are sorted into their one arrangement in the order of their keys. -/
theorem sortItems_iff (h : f.RankedBy idField view items key rank) (hnodup : items.Nodup) :
    ∃ sorted, f.sortItems idField view items = .ok sorted ∧ sorted.Perm items ∧
      ∀ other, other.Perm items → ((other.Pairwise fun x y => key x < key y) ↔ other = sorted) := by
  obtain ⟨sorted, hperm, horder⟩ := h.exists_sorted (List.Subset.refl items) hnodup
  have hsorted := h.sortItems_eq (List.Subset.refl items) hperm horder
  refine ⟨sorted, hsorted, hperm, ?_⟩
  intro other hother
  constructor
  -- What is in the order of the keys is the outcome of the sort, which has one outcome.
  · intro hotherOrder
    have hagain := h.sortItems_eq (List.Subset.refl items) hother hotherOrder
    exact Except.ok.inj (hagain.symm.trans hsorted)
  · rintro rfl
    exact horder

end Filter.RankedBy

end Winnow
