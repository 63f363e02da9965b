import Mathlib.Data.List.Sort
import Winnow.Proofs.Outcome
import Winnow.Sorting

/-!
# What sorting gives

Statements about `Sorting.sort`: on items that the test orders (`Ordered`), it succeeds, loses no item and puts them in
order. When no two of the items are equal in that order, there is only one such arrangement (`sort_eq_of_perm`).
-/

namespace Winnow.Sorting

variable {ε α : Type}

/-- The test answers for any two of some items, and its answers are those of a strict order. -/
structure Ordered (before : α → α → Except ε Bool) (items : List α) : Prop where
  answers : ∀ x ∈ items, ∀ y ∈ items, before x y = .ok true ∨ before x y = .ok false
  asymm : ∀ x ∈ items, ∀ y ∈ items, before x y = .ok true → before y x = .ok false
  trans : ∀ x ∈ items, ∀ y ∈ items, ∀ z ∈ items,
    before y x = .ok false → before z y = .ok false → before z x = .ok false

/-- No item of a list comes before an item in front of it. -/
def InOrder (before : α → α → Except ε Bool) (items : List α) : Prop :=
  items.Pairwise fun x y => before y x = .ok false

/-- An item put between two lists in order, one not after it and the other not before it. -/
theorem inOrder_append_cons {before : α → α → Except ε Bool} {low high : List α} {x : α} (hl : InOrder before low)
    (hh : InOrder before high) (hlx : ∀ a ∈ low, before x a = .ok false) (hxh : ∀ b ∈ high, before b x = .ok false)
    (hlh : ∀ a ∈ low, ∀ b ∈ high, before b a = .ok false) : InOrder before (low ++ x :: high) := by
  refine List.pairwise_append.2 ⟨hl, List.pairwise_cons.2 ⟨hxh, hh⟩, ?_⟩
  intro a ha b hb
  rcases List.mem_cons.1 hb with rfl | hb
  · exact hlx a ha
  · exact hlh a ha b hb

/-! ## Insertion -/

section Insertion

variable {before : α → α → Except ε Bool} {items low high out : List α} {x middle : α}

/-- An item before the middle of a list in order, put among the items below it. -/
theorem inOrder_insert_low (h : Ordered before items) (hx : x ∈ items) (hsub : low ++ middle :: high ⊆ items)
    (hsorted : InOrder before (low ++ middle :: high)) (hb : before x middle = .ok true) (hperm : out.Perm (x :: low))
    (horder : InOrder before out) : InOrder before (out ++ middle :: high) := by
  obtain ⟨-, habove, hcross⟩ := List.pairwise_append.1 hsorted
  obtain ⟨hmiddle, hhigh⟩ := List.pairwise_cons.1 habove
  have hmem : middle ∈ items := hsub (by simp)
  have hxmiddle := h.asymm x hx middle hmem hb
  refine inOrder_append_cons horder hhigh ?_ hmiddle ?_
  · intro a ha
    rcases List.mem_cons.1 (hperm.mem_iff.1 ha) with rfl | ha
    · exact hxmiddle
    · exact hcross a ha middle (by simp)
  · intro a ha b hb'
    rcases List.mem_cons.1 (hperm.mem_iff.1 ha) with rfl | ha
    · exact h.trans a hx middle hmem b (hsub (by simp [hb'])) hxmiddle (hmiddle b hb')
    · exact hcross a ha b (by simp [hb'])

/-- An item not before the middle of a list in order, put among the items above it. -/
theorem inOrder_insert_high (h : Ordered before items) (hx : x ∈ items) (hsub : low ++ middle :: high ⊆ items)
    (hsorted : InOrder before (low ++ middle :: high)) (hb : before x middle = .ok false)
    (hperm : out.Perm (x :: high)) (horder : InOrder before out) : InOrder before (low ++ middle :: out) := by
  obtain ⟨hlow, habove, hcross⟩ := List.pairwise_append.1 hsorted
  obtain ⟨hmiddle, -⟩ := List.pairwise_cons.1 habove
  refine inOrder_append_cons hlow horder (fun a ha => hcross a ha middle (by simp)) ?_ ?_
  · intro b hb'
    rcases List.mem_cons.1 (hperm.mem_iff.1 hb') with rfl | hb'
    · exact hb
    · exact hmiddle b hb'
  · intro a ha b hb'
    rcases List.mem_cons.1 (hperm.mem_iff.1 hb') with rfl | hb'
    · exact h.trans a (hsub (by simp [ha])) middle (hsub (by simp)) b hx (hcross a ha middle (by simp)) hb
    · exact hcross a ha b (by simp [hb'])

end Insertion

/-- Insertion puts an item into a list in order and keeps it in order. -/
theorem insert_ok {before : α → α → Except ε Bool} {items : List α} (h : Ordered before items) {x : α}
    (hx : x ∈ items) (fuel : Nat) (sorted : List α) (hsub : sorted ⊆ items) (hsorted : InOrder before sorted)
    (hfuel : sorted.length ≤ fuel) :
    ∃ out, insert before x fuel sorted = .ok out ∧ out.Perm (x :: sorted) ∧ InOrder before out := by
  induction fuel generalizing sorted with
  | zero =>
    have hnil : sorted = [] := List.eq_nil_of_length_eq_zero (Nat.le_zero.1 hfuel)
    subst hnil
    exact ⟨[x], rfl, List.Perm.refl _, List.pairwise_singleton _ _⟩
  | succ fuel ih =>
    have hcut := List.take_append_drop (sorted.length / 2) sorted
    have hlen : (sorted.take (sorted.length / 2)).length = sorted.length / 2 := by simp; omega
    cases hdrop : sorted.drop (sorted.length / 2) with
    | nil =>
      have hnil : sorted = [] := by
        have := congrArg List.length hdrop
        simp only [List.length_drop, List.length_nil] at this
        exact List.eq_nil_of_length_eq_zero (by omega)
      subst hnil
      exact ⟨[x], by simp [insert], List.Perm.refl _, List.pairwise_singleton _ _⟩
    | cons middle high =>
      generalize hlow : sorted.take (sorted.length / 2) = low at hcut hlen
      rw [hdrop] at hcut
      have hlength := congrArg List.length hcut
      simp only [List.length_append, List.length_cons] at hlength
      rw [← hcut] at hsorted hsub
      obtain ⟨hlowOrder, habove, -⟩ := List.pairwise_append.1 hsorted
      rcases h.answers x hx middle (hsub (by simp)) with hb | hb
      · obtain ⟨out, hout, hperm, horder⟩ := ih low (fun a ha => hsub (by simp [ha])) hlowOrder (by omega)
        refine ⟨out ++ middle :: high, ?_, ?_, inOrder_insert_low h hx hsub hsorted hb hperm horder⟩
        · simp [insert, hdrop, hlow, hb, hout]
        · rw [← hcut]
          exact hperm.append_right (middle :: high)
      · obtain ⟨out, hout, hperm, horder⟩ :=
          ih high (fun a ha => hsub (by simp [ha])) (List.pairwise_cons.1 habove).2 (by omega)
        refine ⟨low ++ middle :: out, ?_, ?_, inOrder_insert_high h hx hsub hsorted hb hperm horder⟩
        · simp [insert, hdrop, hlow, hb, hout]
        · rw [← hcut]
          have hswap := (hperm.cons middle).trans (List.Perm.swap x middle high)
          exact (hswap.append_left low).trans List.perm_middle

/-- Inserting items one after the other keeps them all and keeps the order. -/
theorem insertAll_ok {before : α → α → Except ε Bool} {items : List α} (h : Ordered before items) (rest : List α)
    (sorted : List α) (hrest : rest ⊆ items) (hsub : sorted ⊆ items) (hsorted : InOrder before sorted) :
    ∃ out, insertAll before sorted rest = .ok out ∧ out.Perm (sorted ++ rest) ∧ InOrder before out := by
  induction rest generalizing sorted with
  | nil => exact ⟨sorted, rfl, by simp, hsorted⟩
  | cons x rest ih =>
    have hx : x ∈ items := hrest (by simp)
    obtain ⟨mid, hmid, hperm, horder⟩ := insert_ok h hx sorted.length sorted hsub hsorted (Nat.le_refl _)
    have hmidSub : mid ⊆ items := by
      intro a ha
      rcases List.mem_cons.1 (hperm.mem_iff.1 ha) with rfl | ha
      · exact hx
      · exact hsub ha
    obtain ⟨out, hout, hperm', horder'⟩ := ih mid (fun a ha => hrest (by simp [ha])) hmidSub horder
    refine ⟨out, ?_, ?_, horder'⟩
    · simp [insertAll, hmid, hout]
    · exact hperm'.trans ((hperm.append_right rest).trans List.perm_middle.symm)

/-! ## The run at the beginning -/

/-- An item that the first of a list in order is not before, put in front of it. -/
theorem inOrder_cons {before : α → α → Except ε Bool} {items : List α} (h : Ordered before items) {last y : α}
    {run : List α} (hlast : last ∈ items) (hrun : y :: run ⊆ items) (hb : before y last = .ok false)
    (horder : InOrder before (y :: run)) : InOrder before (last :: y :: run) := by
  refine List.pairwise_cons.2 ⟨?_, horder⟩
  intro a ha
  rcases List.mem_cons.1 ha with rfl | ha
  · exact hb
  · exact h.trans last hlast y (hrun (by simp)) a (hrun (by simp [ha])) hb ((List.pairwise_cons.1 horder).1 a ha)

/-- An item that the last of a list in order is before, put behind it; the list is written backwards. -/
theorem inOrder_reverse_cons {before : α → α → Except ε Bool} {items : List α} (h : Ordered before items) {last y : α}
    {run : List α} (hlast : last ∈ items) (hrun : y :: run ⊆ items) (hb : before y last = .ok true)
    (horder : InOrder before (y :: run).reverse) : InOrder before (last :: y :: run).reverse := by
  have hy : y ∈ items := hrun (by simp)
  have hback := List.pairwise_reverse.1 horder
  have hlasty := h.asymm y hy last hlast hb
  refine List.pairwise_reverse.2 (List.pairwise_cons.2 ⟨?_, hback⟩)
  intro a ha
  rcases List.mem_cons.1 ha with rfl | ha
  · exact hlasty
  · exact h.trans a (hrun (by simp [ha])) y hy last hlast ((List.pairwise_cons.1 hback).1 a ha) hlasty

/-- The items that carry on an ascending run are a beginning of the list, in order behind its last item. -/
theorem ascending_ok {before : α → α → Except ε Bool} {items : List α} (h : Ordered before items) (rest : List α)
    (last : α) (hlast : last ∈ items) (hrest : rest ⊆ items) :
    ∃ run others, ascending before last rest = .ok (run, others) ∧ rest = run ++ others ∧
      InOrder before (last :: run) := by
  induction rest generalizing last with
  | nil => exact ⟨[], [], rfl, rfl, List.pairwise_singleton _ _⟩
  | cons y rest ih =>
    have hy : y ∈ items := hrest (by simp)
    rcases h.answers y hy last hlast with hb | hb
    · exact ⟨[], y :: rest, by simp [ascending, hb], rfl, List.pairwise_singleton _ _⟩
    · obtain ⟨run, others, hrun, rfl, horder⟩ := ih y hy fun a ha => hrest (by simp [ha])
      have hsub : y :: run ⊆ items := fun a ha => hrest (List.mem_append_left others ha)
      exact ⟨y :: run, others, by simp [ascending, hb, hrun], rfl, inOrder_cons h hlast hsub hb horder⟩

/-- The items that carry on a descending run are a beginning of the list, in order when read backwards. -/
theorem descending_ok {before : α → α → Except ε Bool} {items : List α} (h : Ordered before items) (rest : List α)
    (last : α) (hlast : last ∈ items) (hrest : rest ⊆ items) :
    ∃ run others, descending before last rest = .ok (run, others) ∧ rest = run ++ others ∧
      InOrder before (last :: run).reverse := by
  induction rest generalizing last with
  | nil => exact ⟨[], [], rfl, rfl, List.pairwise_singleton _ _⟩
  | cons y rest ih =>
    have hy : y ∈ items := hrest (by simp)
    rcases h.answers y hy last hlast with hb | hb
    · obtain ⟨run, others, hrun, rfl, horder⟩ := ih y hy fun a ha => hrest (by simp [ha])
      have hsub : y :: run ⊆ items := fun a ha => hrest (List.mem_append_left others ha)
      exact ⟨y :: run, others, by simp [descending, hb, hrun], rfl, inOrder_reverse_cons h hlast hsub hb horder⟩
    · exact ⟨[], y :: rest, by simp [descending, hb], rfl, List.pairwise_singleton _ _⟩

/-- The run at the beginning holds a beginning of the items, in order. -/
theorem leadingRun_ok {before : α → α → Except ε Bool} {items : List α} (h : Ordered before items) :
    ∃ run others, leadingRun before items = .ok (run, others) ∧ (run ++ others).Perm items ∧ InOrder before run := by
  match items, h with
  | [], _ => exact ⟨[], [], rfl, List.Perm.refl _, List.Pairwise.nil⟩
  | [x], _ => exact ⟨[x], [], rfl, List.Perm.refl _, List.pairwise_singleton _ _⟩
  | x :: y :: rest, h =>
    have hx : x ∈ x :: y :: rest := by simp
    have hy : y ∈ x :: y :: rest := by simp
    have hrest : rest ⊆ x :: y :: rest := fun a ha => by simp [ha]
    rcases h.answers y hy x hx with hb | hb
    · obtain ⟨run, others, hrun, rfl, horder⟩ := descending_ok h rest y hy hrest
      have hsub : y :: run ⊆ x :: y :: (run ++ others) :=
        fun a ha => List.mem_cons_of_mem x (List.mem_append_left others ha)
      refine ⟨(x :: y :: run).reverse, others, by simp [leadingRun, hb, hrun], ?_, ?_⟩
      · exact (List.reverse_perm (x :: y :: run)).append_right others
      · exact inOrder_reverse_cons h hx hsub hb horder
    · obtain ⟨run, others, hrun, rfl, horder⟩ := ascending_ok h rest y hy hrest
      have hsub : y :: run ⊆ x :: y :: (run ++ others) :=
        fun a ha => List.mem_cons_of_mem x (List.mem_append_left others ha)
      refine ⟨x :: y :: run, others, by simp [leadingRun, hb, hrun], List.Perm.refl _, ?_⟩
      exact inOrder_cons h hx hsub hb horder

/-! ## The whole sort -/

/-- On items that the test orders, the sort succeeds, keeps every item and puts them in order. -/
theorem sort_ok {before : α → α → Except ε Bool} {items : List α} (h : Ordered before items) :
    ∃ out, sort before items = .ok out ∧ out.Perm items ∧ InOrder before out := by
  obtain ⟨run, others, hrun, hperm, horder⟩ := leadingRun_ok h
  have hsub : ∀ a ∈ run ++ others, a ∈ items := fun a ha => hperm.mem_iff.1 ha
  obtain ⟨out, hout, hperm', horder'⟩ := insertAll_ok h others run (fun a ha => hsub a (by simp [ha]))
    (fun a ha => hsub a (by simp [ha])) horder
  exact ⟨out, by simp [sort, hrun, hout], hperm'.trans hperm, horder'⟩

/-- When no two items are equal in the order, the sort gives the one arrangement of them that is in order. -/
theorem sort_eq_of_perm {before : α → α → Except ε Bool} {items out : List α} (h : Ordered before items)
    (hdistinct : ∀ x ∈ items, ∀ y ∈ items, before x y = .ok false → before y x = .ok false → x = y)
    (hperm : out.Perm items) (horder : InOrder before out) : sort before items = .ok out := by
  obtain ⟨out', hout', hperm', horder'⟩ := sort_ok h
  have hsame : out' = out := by
    refine List.Perm.eq_of_pairwise ?_ horder' horder (hperm'.trans hperm.symm)
    intro a b ha hb hab hba
    exact hdistinct a (hperm'.mem_iff.1 ha) b (hperm.mem_iff.1 hb) hba hab
  rw [hout', hsame]

end Winnow.Sorting
