import Winnow.Proofs.AfterItem
import Winnow.Proofs.Arrangement
import Winnow.Proofs.Shape

/-!
# Paging

Statements about `Filter.pages`: going from page to page after the last item of each gives the whole selection, every
item once (`Filter.pages_eq_select`). Items are in a linear order by their keys, and the statement that is added for the
next page holds of exactly the items that come after the last one in that order (`Filter.Keyed`); so each page is the
next part of one sorted list.
-/

namespace Winnow

variable {α : Type}

/-- Items that a filter sorts by a key: their ranks are in the order of the keys, no two have the same key, and the
filter is continued after an item by a statement that holds of the items with a later key. -/
structure Filter.Keyed (f : Filter) (clock : Clock) (idField : String) (view : α → Value) (items : List α) {K : Type}
    [LinearOrder K] (key : α → K) (rank : α → RankKey) : Prop where
  nodup : items.Nodup
  inj : ∀ x ∈ items, ∀ y ∈ items, key x = key y → x = y
  rank_ok : ∀ x ∈ items, RankKey.of f idField (view x) = .ok (rank x)
  before_ok : ∀ x ∈ items, ∀ y ∈ items, RankKey.before f.direction (rank x) (rank y) = .ok (decide (key x < key y))
  after_ok : ∀ last ∈ items, ∃ queries,
    (f.continueAfter idField (view last)).result =
      .ok { f with statements := f.statements ++ Filter.statementsOf [queries] } ∧
    ∀ x ∈ items, anyPasses (fun q => (Registry.standard clock).matchesQuery q (view x)) queries =
      .ok (decide (key last < key x))

/-! ## Selections in the order of a key -/

namespace Filter

/-- Where every item is accepted or not, those that match are the accepted ones. -/
theorem matching_of_accepts {f : Filter} {r : Registry} {view : α → Value} {items : List α} {accepted : α → Bool}
    (h : ∀ x ∈ items, f.accepts r (view x) = .ok (accepted x)) :
    f.matching r view items = .ok (items.filter accepted) := by
  induction items with
  | nil => rfl
  | cons x rest ih =>
    rw [matching, h x (.head _), ok_bind, ih fun y hy => h y (.tail _ hy), ok_bind, List.filter_cons]
    cases accepted x <;> rfl

/-- The first items up to a limit that is not negative. -/
theorem limited_int {n : Int} (h : 0 ≤ n) (items : List α) : limited (.int n) items = .ok (items.take n.toNat) := by
  show Except.ok (items.take (if 0 ≤ n then n.toNat else items.length - n.natAbs)) = _
  rw [if_pos h]

/-- The element of a sort depends only on its identifier. -/
theorem sortElement?_congr {f g : Filter} (h : f.subId = g.subId) (elements : List Value) :
    f.sortElement? elements = g.sortElement? elements := by
  induction elements with
  | nil => rfl
  | cons element rest ih => rw [sortElement?, sortElement?, h, ih]

/-- What a sort looks at depends only on its field, identifier and property. -/
theorem sortSource_congr {f g : Filter} (hfield : f.sortField = g.sortField) (hsub : f.subId = g.subId)
    (hprop : f.subProp = g.subProp) (item : Value) : f.sortSource item = g.sortSource item := by
  have hnested : f.hasNestedSort = g.hasNestedSort := by rw [hasNestedSort, hasNestedSort, hsub, hprop]
  simp only [sortSource, hfield, hprop, hnested, sortElement?_congr hsub]

/-- Neither the statements nor the limit have a part in the order of items. -/
theorem sortItems_with (f : Filter) (statements : List Statement) (limit : Value) (idField : String) (view : α → Value)
    (items : List α) : { f with statements := statements, limit := limit }.sortItems idField view items =
      f.sortItems idField view items := by
  have hsource (item : Value) : { f with statements := statements, limit := limit }.sortSource item =
      f.sortSource item := by
    refine sortSource_congr ?_ ?_ ?_ item <;> rfl
  have hkey (item : Value) : RankKey.of { f with statements := statements, limit := limit } idField item =
      RankKey.of f idField item := by
    rw [RankKey.of, sortValue, hsource]
    rfl
  simp only [sortItems, hkey]

/-- With one more statement, the filter accepts what it accepted before, where that statement holds. -/
theorem accepts_append {f : Filter} {r : Registry} {item : Value} {queries : List Query} {b c : Bool}
    (hb : f.accepts r item = .ok b) (hc : anyPasses (fun q => r.matchesQuery q item) queries = .ok c) :
    { f with statements := f.statements ++ statementsOf [queries] }.accepts r item = .ok (b && c) := by
  rw [accepts, Registry.matchesStatements_eq] at hb ⊢
  refine allPass_append hb ((allPass_singleton _ _).trans ?_)
  rw [Registry.matchesStatement_map]
  exact hc

/-- What is looked at in the last of some items, null when there is none. -/
def lastSeen (view : α → Value) (items : List α) : Value :=
  (items.getLast?.map view).getD .null

/-- Of items in the order of a key, those after the last of the first ones are the others. -/
theorem filter_lt_eq {K : Type} [LinearOrder K] {key : α → K} {done rest : List α} {last : α}
    (horder : (done ++ rest).Pairwise fun x y => key x < key y) (hlast : done.getLast? = some last) :
    (done ++ rest).filter (fun x => decide (key last < key x)) = rest := by
  obtain ⟨hdone, -, hcross⟩ := List.pairwise_append.1 horder
  obtain ⟨before, rfl⟩ := List.getLast?_eq_some_iff.1 hlast
  have hnone : (before ++ [last]).filter (fun x => decide (key last < key x)) = [] := by
    refine List.filter_eq_nil_iff.2 ?_
    intro x hx hlt
    have hlt := of_decide_eq_true hlt
    rcases List.mem_append.1 hx with hx | hx
    · exact lt_asymm hlt ((List.pairwise_append.1 hdone).2.2 x hx last (List.mem_singleton_self last))
    · rw [List.mem_singleton.1 hx] at hlt
      exact lt_irrefl _ hlt
  have hall : rest.filter (fun x => decide (key last < key x)) = rest := by
    refine List.filter_eq_self.2 fun x hx => decide_eq_true ?_
    exact hcross last (List.mem_append_right before (List.mem_singleton_self last)) x hx
  rw [List.filter_append, hnone, hall, List.nil_append]

namespace Keyed

variable {f : Filter} {clock : Clock} {idField : String} {view : α → Value} {items : List α} {K : Type} [LinearOrder K]
  {key : α → K} {rank : α → RankKey}

/-- The items are ranked by their keys. -/
theorem rankedBy (h : f.Keyed clock idField view items key rank) : f.RankedBy idField view items key rank :=
  ⟨h.inj, h.rank_ok, h.before_ok⟩

/-- Some of the items are sorted by their keys. -/
theorem sortItems_eq (h : f.Keyed clock idField view items key rank) {part out : List α} (hsub : part ⊆ items)
    (hperm : out.Perm part) (horder : out.Pairwise fun x y => key x < key y) :
    f.sortItems idField view part = .ok out :=
  h.rankedBy.sortItems_eq hsub hperm horder

/-- Some of the items, none of them twice, have an arrangement in the order of their keys. -/
theorem exists_sorted (h : f.Keyed clock idField view items key rank) {part : List α} (hsub : part ⊆ items)
    (hnodup : part.Nodup) : ∃ out : List α, out.Perm part ∧ out.Pairwise fun x y => key x < key y :=
  h.rankedBy.exists_sorted hsub hnodup

/-! ## From page to page -/

/-- With other statements and another limit, the filter selects the first of the items that it accepts. -/
theorem select_of_accepts (h : f.Keyed clock idField view items key rank) {statements : List Statement} {n : Nat}
    {accepted : α → Bool} (haccepts : ∀ x ∈ items,
      { f with statements := statements, limit := .int n }.accepts (.standard clock) (view x) = .ok (accepted x))
    {out : List α} (hperm : out.Perm (items.filter accepted)) (horder : out.Pairwise fun x y => key x < key y) :
    { f with statements := statements, limit := .int n }.select (.standard clock) idField view items =
      .ok (out.take n) := by
  have hsorted : { f with statements := statements, limit := .int n }.sortItems idField view (items.filter accepted) =
      .ok out := by
    rw [sortItems_with, h.sortItems_eq (List.filter_subset_self items) hperm horder]
  rw [select, matching_of_accepts haccepts, ok_bind, hsorted, ok_bind]
  exact limited_int (Int.natCast_nonneg n) out

/-- After the items that are done, the filter selects the first of those that are left. -/
theorem select_next (h : f.Keyed clock idField view items key rank) {n : Nat} (hlimit : f.limit = .int n)
    {accepted : α → Bool} (haccepts : ∀ x ∈ items, f.accepts (.standard clock) (view x) = .ok (accepted x))
    {done rest : List α} (hperm : (done ++ rest).Perm (items.filter accepted))
    (horder : (done ++ rest).Pairwise fun x y => key x < key y) :
    ∃ continued, (f.continueAfter idField (lastSeen view done)).result = .ok continued ∧
      continued.select (.standard clock) idField view items = .ok (rest.take n) := by
  have hwith (statements : List Statement) :
      { f with statements := statements } = { f with statements := statements, limit := .int n } := by
    rw [← hlimit]
  cases hlast : done.getLast? with
  | none =>
    obtain rfl := List.getLast?_eq_none_iff.1 hlast
    refine ⟨f, rfl, ?_⟩
    have hself : f = { f with statements := f.statements, limit := .int n } := hwith f.statements
    rw [hself] at haccepts ⊢
    exact h.select_of_accepts haccepts hperm horder
  | some last =>
    have hdone : last ∈ done := List.mem_of_getLast? hlast
    have hmem : last ∈ items := List.filter_subset_self items (hperm.subset (List.mem_append_left rest hdone))
    obtain ⟨queries, hcontinue, hqueries⟩ := h.after_ok last hmem
    refine ⟨_, by rw [lastSeen, hlast]; exact hcontinue, ?_⟩
    have hcontinued : ∀ x ∈ items,
        { f with statements := f.statements ++ statementsOf [queries] }.accepts (.standard clock) (view x) =
          .ok (accepted x && decide (key last < key x)) :=
      fun x hx => accepts_append (haccepts x hx) (hqueries x hx)
    rw [hwith] at hcontinued ⊢
    refine h.select_of_accepts hcontinued ?_ (List.pairwise_append.1 horder).2.1
    rw [← filter_lt_eq horder hlast]
    refine (hperm.filter _).trans ?_
    rw [List.filter_filter]
    simp only [Bool.and_comm, List.Perm.refl]

/-- From the items that are done, the pages go through those that are left and end with an empty one. -/
theorem pagesFrom_ok (h : f.Keyed clock idField view items key rank) {n : Nat} (hlimit : f.limit = .int n) (hn : 1 ≤ n)
    {accepted : α → Bool} (haccepts : ∀ x ∈ items, f.accepts (.standard clock) (view x) = .ok (accepted x))
    (fuel : Nat) (done rest : List α) (hperm : (done ++ rest).Perm (items.filter accepted))
    (horder : (done ++ rest).Pairwise fun x y => key x < key y) (hfuel : rest.length < fuel) :
    ∃ pages final, f.pagesFrom (.standard clock) idField view items fuel (lastSeen view done) = .ok (pages ++ [final]) ∧
      final.items = [] ∧ (∀ page ∈ pages, page.items ≠ []) ∧ pages.length ≤ rest.length ∧
      pages.flatMap Page.items = rest := by
  -- what is done, followed by what is left, stays the one arrangement of the accepted items by their keys
  induction fuel generalizing done rest with
  | zero => exact absurd hfuel (Nat.not_lt_zero _)
  | succ fuel ih =>
    obtain ⟨continued, hcontinued, hselect⟩ := h.select_next hlimit haccepts hperm horder
    rw [pagesFrom, hcontinued, ok_bind, hselect, ok_bind]
    cases hlast : (rest.take n).getLast? with
    | none =>
      have hrest : rest = [] := by
        rcases List.take_eq_nil_iff.1 (List.getLast?_eq_none_iff.1 hlast) with hzero | hnil
        · omega
        · exact hnil
      subst hrest
      exact ⟨[], ⟨[], _⟩, by rw [List.take_nil]; rfl, rfl, nofun, Nat.le_refl _, rfl⟩
    | some last =>
      have hcut := List.take_append_drop n rest
      have hne : rest.take n ≠ [] := List.ne_nil_of_mem (List.mem_of_getLast? hlast)
      have hshorter : (rest.drop n).length < rest.length := by
        have hpos : 0 < rest.length := List.length_pos_iff.2 fun hnil => hne (by rw [hnil, List.take_nil])
        rw [List.length_drop]
        omega
      obtain ⟨pages, final, hpages, hfinal, hfull, hlength, hitems⟩ := ih (done ++ rest.take n) (rest.drop n)
        (by rwa [List.append_assoc, hcut]) (by rwa [List.append_assoc, hcut]) (by omega)
      have hseen : lastSeen view (done ++ rest.take n) = view last := by
        rw [lastSeen, List.getLast?_append, hlast]
        rfl
      rw [hseen] at hpages
      refine ⟨⟨rest.take n, continued.statements.drop f.statements.length⟩ :: pages, final, ?_, hfinal, ?_, ?_, ?_⟩
      · simp only [hpages, ok_bind]
        rfl
      · exact List.forall_mem_cons.2 ⟨hne, hfull⟩
      · rw [List.length_cons]
        omega
      · rw [List.flatMap_cons, hitems, hcut]

end Keyed

/-! ## Sorts of items by marks -/

/-- Items that a filter sorts by marks: the sort value of each is in the form of its mark, and the queries for what
comes after an item hold of those with a later key. -/
structure Marked (f : Filter) (clock : Clock) (idField : String) (marks ids : Scale) (items : List Value)
    (mark : Value → Option marks.Mark) : Prop where
  value_ok : ∀ item ∈ items, f.sortValue idField item = .ok (marks.formOf (mark item))
  after_ok : ∀ last ∈ items, ∀ i : ids.Mark, ∃ queries, f.afterItem idField last (ids.form i) = .ok queries ∧
    ∀ item ∈ items, ∀ j, item.resolve idField = ids.form j →
      anyPasses (fun q => (Registry.standard clock).matchesQuery q item) queries =
        .ok (decide (keyOf f.direction (mark last) i < keyOf f.direction (mark item) j))

section Shapes

variable {f : Filter} {clock : Clock} {idField field : String} {marks ids : Scale} {items : List Value}

/-- Without a sort of its own, a filter sorts items by their identifiers alone. -/
theorem marked_of_unsorted (hsort : f.hasSort idField = false) :
    f.Marked clock idField marks ids items fun _ => none where
  value_ok item _ := by
    rw [sortValue, hsort]
    rfl
  after_ok last _ i := by
    refine ⟨[[(idField, .within f.direction.afterBound (ids.form i))]], ?_, ?_⟩
    · rw [afterItem, hsort]
      rfl
    · intro item _ j hj
      have htie : (Registry.standard clock).matchesQuery [(idField, .within f.direction.afterBound (ids.form i))] item =
          .ok (decide (f.direction.ranked i < f.direction.ranked j)) :=
        Registry.matchesQuery_single (evaluate_tieBreak hj i)
      have hkey : keyOf f.direction (none : Option marks.Mark) i < keyOf f.direction none j ↔
          f.direction.ranked i < f.direction.ranked j := keyOf_none_lt_none
      rw [anyPasses, htie, ok_bind, decide_eq_decide.2 hkey]
      cases decide (f.direction.ranked i < f.direction.ranked j) <;> rfl

/-- Items are sorted by the marks for which a field of their own, or a property of one of its elements, is probed. -/
theorem marked_of_probes {mark : Value → Option marks.Mark} {probe : Condition → Query} {missing : Query}
    (hvalue : ∀ item ∈ items, f.sortValue idField item = .ok (marks.formOf (mark item)))
    (hprobes : ∀ item ∈ items, Probes clock marks probe missing item (mark item))
    (hafter : ∀ last ∈ items, ∀ lastId, f.afterItem idField last lastId =
      .ok (Paging.alternatives (marks.formOf (mark last))
        (probe (.within f.direction.afterBound (marks.formOf (mark last)))) (probe (.eq (marks.formOf (mark last))))
        missing (idField, .within f.direction.afterBound lastId))) :
    f.Marked clock idField marks ids items mark where
  value_ok := hvalue
  after_ok last hlast i := by
    refine ⟨_, hafter last hlast (ids.form i), ?_⟩
    intro item hitem j hj
    exact anyPasses_alternatives (hprobes item hitem) (evaluate_tieBreak hj i) (mark last)

/-- In a sort by a field of their own, items are sorted by the marks in that field. -/
theorem exists_marked_of_plain (hsort : f.hasSort idField = true) (hnested : f.hasNestedSort = false)
    (hfield : f.sortField = .text field) (hmarks : ∀ item ∈ items, ∃ m, marks.Holds (item.resolve field) m) :
    ∃ mark, f.Marked clock idField marks ids items mark := by
  choose! mark hmark using hmarks
  have hvalue : ∀ item ∈ items, f.sortValue idField item = .ok (marks.formOf (mark item)) := by
    intro item hitem
    refine sortValue_of_holds hsort ?_ (hmark item hitem)
    rw [sortSource, hfield, hnested]
    rfl
  refine ⟨mark, marked_of_probes hvalue (fun item hitem => probes_field (hmark item hitem)) ?_⟩
  intro last hlast lastId
  rw [afterItem, hsort, hvalue last hlast, hnested, hfield]
  rfl

/-- In a sort by a property of one element of a collection, items are sorted by the marks in that property. -/
theorem exists_marked_of_nested {subProp : String} (hsort : f.hasSort idField = true)
    (hnested : f.hasNestedSort = true) (hfield : f.sortField = .text field) {name : String}
    (hsub : f.subId = .text name) (hprop : f.subProp = .text subProp)
    (helements : ∀ item ∈ items, HasOneElement marks (.text name) subProp (item.resolve field)) :
    ∃ mark, f.Marked clock idField marks ids items mark := by
  have hprobes : ∀ item ∈ items, ∃ source m, f.sortSource item = .ok source ∧ marks.Holds source m ∧
      Probes clock marks (fun c => Query.single field (.find (Paging.element (.text name) subProp c)))
        (Query.single field (.nfind (Paging.element (.text name) subProp (.neq .null)))) item m :=
    fun item hitem => probes_element hsub hprop hfield hnested (helements item hitem)
  choose! source mark hsource hmark hprobes using hprobes
  have hvalue : ∀ item ∈ items, f.sortValue idField item = .ok (marks.formOf (mark item)) := fun item hitem =>
    sortValue_of_holds hsort (hsource item hitem) (hmark item hitem)
  refine ⟨mark, marked_of_probes hvalue hprobes ?_⟩
  intro last hlast lastId
  rw [afterItem, hsort, hvalue last hlast, hnested, hfield, hsub, hprop]
  rfl

end Shapes

/-! ## Filters that can be paged -/

/-- A filter with items that it can be continued after: their identifiers are distinct and on one scale, and each has at
most one sort value, all of these on one scale too. -/
structure IsPageable (f : Filter) (idField : String) (marks ids : Scale) (items : List Value) : Prop where
  sortField : f.sortField.IsSortName
  subId : f.subId.IsSortName
  subProp : f.subProp.IsSortName
  ids_ne_time : ids ≠ .time
  identified : ∀ item ∈ items, ∃ i, ids.read (item.resolve idField) = some i
  distinct : (items.map fun item => item.resolve idField).Nodup
  plain : ∀ field, f.sortField = .text field → f.hasSort idField = true → f.hasNestedSort = false →
    ∀ item ∈ items, ∃ m, marks.Holds (item.resolve field) m
  nested : ∀ field subProp, f.sortField = .text field → f.subProp = .text subProp → f.hasSort idField = true →
    f.hasNestedSort = true → ∀ item ∈ items, HasOneElement marks f.subId subProp (item.resolve field)

/-- Items that can be continued after are sorted by marks. -/
theorem IsPageable.exists_marked {f : Filter} {idField : String} {marks ids : Scale} {items : List Value}
    (h : f.IsPageable idField marks ids items) (clock : Clock) :
    ∃ mark, f.Marked clock idField marks ids items mark := by
  cases hsort : f.hasSort idField with
  | false => exact ⟨_, marked_of_unsorted hsort⟩
  | true =>
    obtain ⟨field, hfield⟩ := h.sortField.exists_text (Bool.and_eq_true_iff.1 hsort).1
    cases hnested : f.hasNestedSort with
    | false => exact exists_marked_of_plain hsort hnested hfield (h.plain field hfield hsort hnested)
    | true =>
      obtain ⟨hsubGiven, hpropGiven⟩ := Bool.and_eq_true_iff.1 hnested
      obtain ⟨name, hsub⟩ := h.subId.exists_text hsubGiven
      obtain ⟨subProp, hprop⟩ := h.subProp.exists_text hpropGiven
      refine exists_marked_of_nested hsort hnested hfield hsub hprop ?_
      rw [← hsub]
      exact h.nested field subProp hfield hprop hsort hnested

/-- A limit has no part in whether a filter can be continued. -/
theorem IsPageable.withLimit {f : Filter} {idField : String} {marks ids : Scale} {items : List Value}
    (h : f.IsPageable idField marks ids items) (limit : Value) :
    { f with limit := limit }.IsPageable idField marks ids items :=
  ⟨h.sortField, h.subId, h.subProp, h.ids_ne_time, h.identified, h.distinct, h.plain, h.nested⟩

/-- After an item with an identifier, a filter is continued by one more statement. -/
theorem result_continueAfter {f : Filter} {idField : String} {last lastId : Value} {queries : List Query}
    (hid : last.resolve idField = lastId) (hne : lastId ≠ .null)
    (hqueries : f.afterItem idField last lastId = .ok queries) :
    (f.continueAfter idField last).result =
      .ok { f with statements := f.statements ++ statementsOf [queries] } := by
  unfold continueAfter
  split
  · exact absurd (hid.symm.trans (Value.resolve_null idField)) hne
  · split
    · next hnull => exact absurd (hid.symm.trans hnull) hne
    · rw [hid, Logged.result_bind (by rw [Logged.result_ofResult, hqueries]),
        Logged.result_bind (Logged.result_record _)]
      rfl

/-- Items that can be continued after are in the order of their keys. -/
theorem IsPageable.exists_keyed {f : Filter} {idField : String} {view : α → Value} {marks ids : Scale} {items : List α}
    (h : f.IsPageable idField marks ids (items.map view)) (clock : Clock) :
    ∃ (key : α → Key f.direction marks ids) (rank : α → RankKey), f.Keyed clock idField view items key rank := by
  obtain ⟨mark, hmark⟩ := h.exists_marked clock
  have hids : ∀ x ∈ items, ∃ i : ids.Mark, (view x).resolve idField = ids.form i := by
    intro x hx
    obtain ⟨i, hi⟩ := h.identified (view x) (List.mem_map_of_mem hx)
    exact ⟨i, Scale.eq_form_of_read h.ids_ne_time hi⟩
  choose! idMark hidMark using hids
  have hdistinct : (items.map fun x => (view x).resolve idField).Nodup := by
    simpa [Function.comp_def] using h.distinct
  refine ⟨fun x => keyOf f.direction (mark (view x)) (idMark x),
    fun x => ⟨marks.formOf (mark (view x)), ids.form (idMark x)⟩, ?_, ?_, ?_, ?_, ?_⟩
  · exact hdistinct.of_map
  · intro x hx y hy hkey
    refine List.inj_on_of_nodup_map hdistinct hx hy ?_
    rw [hidMark x hx, hidMark y hy, eq_of_keyOf_eq hkey]
  · intro x hx
    rw [RankKey.of, hmark.value_ok (view x) (List.mem_map_of_mem hx), hidMark x hx]
    rfl
  · intro x _ y _
    exact RankKey.before_eq _ _ _ _
  · intro last hlast
    obtain ⟨queries, hqueries, hholds⟩ := hmark.after_ok (view last) (List.mem_map_of_mem hlast) (idMark last)
    refine ⟨queries, result_continueAfter (hidMark last hlast) (ids.form_ne_null _) hqueries, ?_⟩
    intro x hx
    exact hholds (view x) (List.mem_map_of_mem hx) (idMark x) (hidMark x hx)

/-- Going from page to page, each after the last item of the one before, ends with an empty page and gives the whole
selection: every item that matches, once, and in order. -/
theorem pages_eq_select {f : Filter} {clock : Clock} {idField : String} {view : α → Value} {marks ids : Scale}
    {items : List α} {size : Int} (h : f.IsPageable idField marks ids (items.map view))
    (hanswers : ∀ x ∈ items, ∃ answer, f.accepts (.standard clock) (view x) = .ok answer) (hsize : 1 ≤ size) :
    ∃ pages final, f.pages (.standard clock) idField view (.int size) items = .ok (pages ++ [final]) ∧
      final.items = [] ∧ (∀ page ∈ pages, page.items ≠ []) ∧ pages.length ≤ items.length ∧
      { f with limit := .int (items.length + 1) }.select (.standard clock) idField view items =
        .ok (pages.flatMap Page.items) ∧
      ∃ matched, f.matching (.standard clock) view items = .ok matched ∧ (pages.flatMap Page.items).Perm matched := by
  obtain ⟨n, rfl⟩ := Int.eq_ofNat_of_zero_le (by omega : 0 ≤ size)
  choose! accepted haccepted using hanswers
  obtain ⟨key, rank, hkeyed⟩ := (h.withLimit (.int n)).exists_keyed clock
  obtain ⟨out, hperm, horder⟩ := hkeyed.exists_sorted (List.filter_subset_self items) (hkeyed.nodup.filter accepted)
  have hlength : out.length ≤ items.length := hperm.length_eq.trans_le (List.length_filter_le _ _)
  obtain ⟨pages, final, hpages, hfinal, hfull, hcount, hitems⟩ :=
    hkeyed.pagesFrom_ok rfl (by omega) haccepted (items.length + 1) [] out hperm horder (by omega)
  refine ⟨pages, final, hpages, hfinal, hfull, hcount.trans hlength, ?_, _, matching_of_accepts haccepted, ?_⟩
  · have hwhole := hkeyed.select_of_accepts (n := items.length + 1) haccepted hperm horder
    rw [List.take_of_length_le (by omega)] at hwhole
    rw [hitems, ← hwhole]
    rfl
  · rw [hitems]
    exact hperm

/-- Items by their identifiers and their ranks, null for none. -/
def rankedItems : List Value :=
  [(1, .int 5), (2, .null), (3, .int 7), (4, .int 5), (5, .null)].map fun entry : Int × Value =>
    .object [("id", .int entry.1), ("rank", entry.2)]

/-- The items with an identifier after 1, by their ranks from the greatest. -/
def byRank : Filter :=
  { statements := statementsOf [[[("id", .within .gt (.int 1))]]], sortField := .text "rank", direction := .desc }

/-- Pages of two of items with equal ranks and with none. -/
theorem pages_eq_select_byRank :
    byRank.IsPageable "id" .whole .whole (rankedItems.map id) ∧
      (∀ x ∈ rankedItems, ∃ answer, byRank.accepts (.standard .atStart) (id x) = .ok answer) ∧
      ∃ pages final, byRank.pages (.standard .atStart) "id" id (.int 2) rankedItems = .ok (pages ++ [final]) ∧
        final.items = [] ∧ (∀ page ∈ pages, page.items ≠ []) ∧ pages.length ≤ rankedItems.length ∧
        { byRank with limit := .int (rankedItems.length + 1) }.select (.standard .atStart) "id" id rankedItems =
          .ok (pages.flatMap Page.items) ∧
        ∃ matched, byRank.matching (.standard .atStart) id rankedItems = .ok matched ∧
          (pages.flatMap Page.items).Perm matched := by
  have hpageable : byRank.IsPageable "id" .whole .whole (rankedItems.map id) := by
    refine ⟨trivial, trivial, trivial, nofun, ?_, ?_, ?_, ?_⟩
    · simp only [rankedItems, List.map_cons, List.map_nil, List.forall_mem_cons]
      exact ⟨⟨(1 : Int), rfl⟩, ⟨(2 : Int), rfl⟩, ⟨(3 : Int), rfl⟩, ⟨(4 : Int), rfl⟩, ⟨(5 : Int), rfl⟩, nofun⟩
    · have hids : (rankedItems.map id).map (fun item => item.resolve "id") =
          [1, 2, 3, 4, 5].map (Value.int : Int → Value) := rfl
      rw [hids]
      exact List.Nodup.map (fun _ _ => Value.int.inj) (by decide)
    · intro field hfield _ _
      cases hfield
      simp only [rankedItems, List.map_cons, List.map_nil, List.forall_mem_cons]
      exact ⟨⟨some (5 : Int), rfl⟩, ⟨none, rfl⟩, ⟨some (7 : Int), rfl⟩, ⟨some (5 : Int), rfl⟩, ⟨none, rfl⟩, nofun⟩
    · intro _ subProp _ hprop
      cases hprop
  have hanswers : ∀ x ∈ rankedItems, ∃ answer, byRank.accepts (.standard .atStart) (id x) = .ok answer := by
    simp only [rankedItems, List.map_cons, List.map_nil, List.forall_mem_cons]
    exact ⟨⟨false, rfl⟩, ⟨true, rfl⟩, ⟨true, rfl⟩, ⟨true, rfl⟩, ⟨true, rfl⟩, nofun⟩
  exact ⟨hpageable, hanswers, pages_eq_select hpageable hanswers (by decide)⟩

end Filter

end Winnow
