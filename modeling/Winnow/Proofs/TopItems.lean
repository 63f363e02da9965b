import Winnow.Proofs.NoneSkipped

/-!
# The first items of an order

A filter with a limit selects the first of the items that match, in an order that does not depend on how the items were
given (`Filter.FirstOf`). Nothing is asked of the items but that they can be compared: any two identifiers have an
order, and so have any two of the values that the sort looks at, in the form in which they are ranked. Then the values
are all of one kind (`Kind.exists_ofAll`), and the identifiers are in the order of marks as well (`Value.exists_marks`),
although they are compared as they are, be they sequences or dates beyond the calendar.
-/

namespace Winnow

/-! ## Values any two of which have an order -/

namespace Kind

variable {values : List Value}

/-- Single values any two of which have an order are all of one kind, unless there are dates beyond the calendar among
them. -/
theorem exists_ofAll (hsingle : ∀ v ∈ values, v.IsSingle) (hwithin : ∀ v ∈ values, ¬v.IsBeyond)
    (horder : ∀ v ∈ values, ∀ w ∈ values, ∃ o, orderOf v w = .ok (some o)) : ∃ k : Kind, k.OfAll values := by
  have hread : ∀ v ∈ values, ∀ w ∈ values, ∃ (k : Kind) (a b : k.Mark), k.read v = some a ∧ k.read w = some b := by
    intro v hv w hw
    obtain ⟨o, ho⟩ := horder v hv w hw
    rcases exists_read_of_orderScalar (((hsingle v hv).order w).symm.trans (order_of_orderOf ho)) with
      hread | ⟨-, -, hbeyond | hbeyond⟩
    · exact hread
    · exact absurd hbeyond (hwithin v hv)
    · exact absurd hbeyond (hwithin w hw)
  cases values with
  | nil => exact ⟨.number, nofun⟩
  | cons first rest =>
    obtain ⟨k, a, -, ha, -⟩ := hread first (.head _) first (.head _)
    refine ⟨k, fun w hw => ?_⟩
    obtain ⟨l, b, c, hb, hc⟩ := hread first (.head _) w hw
    obtain rfl := eq_of_read ha hb
    exact ⟨c, hc⟩

end Kind

/-! ## What a sort looks at -/

/-- Two values that have an order in the form in which they are ranked. -/
def Value.RankedWith (v w : Value) : Prop :=
  ∃ p q order, rankable v = .ok p ∧ rankable w = .ok q ∧ orderOf p q = .ok (some order)

namespace Kind

variable {k : Kind} {v w : Value} {values : List Value}

/-- Two values of one kind have an order in the form in which they are ranked. -/
theorem rankedWith_of_read {a b : k.Mark} (hv : k.read v = some a) (hw : k.read w = some b) : v.RankedWith w :=
  ⟨ranked v, ranked w, compare a b, (rankable_of_read hv).1, (rankable_of_read hw).1, orderOf_ranked hv hw⟩

/-- A value is ranked as it is, or as the instant that it is a date of. -/
theorem ranked_cases {p : Value} (h : rankable v = .ok p) :
    v.isTemporal = false ∧ p = v ∨ ∃ i, moment.read v = some i ∧ p = .ofInstant i := by
  rw [rankable] at h
  split at h
  · next htemporal =>
    have hmoment (t : DateTime) (hv : v.toInstant = t.toInstant.map some) (hread : moment.read v = t.toInstant?) :
        ∃ i, moment.read v = some i ∧ p = .ofInstant i := by
      rw [hv, DateTime.toInstant] at h
      rw [hread]
      cases hi : t.toInstant? with
      | none =>
        rw [hi] at h
        cases h
      | some i =>
        rw [hi] at h
        cases h
        exact ⟨i, rfl, rfl⟩
    refine .inr ?_
    cases v with
    | date d => exact hmoment (.ofDate d) rfl rfl
    | datetime t => exact hmoment t rfl rfl
    | _ => cases htemporal
  · next htemporal =>
    cases h
    exact .inl ⟨Bool.eq_false_iff.2 htemporal, rfl⟩

/-- The form in which a single value is ranked is a single value within the calendar, and of no kind but that of the
value. -/
theorem of_rankable (hv : v.IsSingle) {p : Value} (h : rankable v = .ok p) :
    p.IsSingle ∧ ¬p.IsBeyond ∧ ∀ {k : Kind} {a : k.Mark}, k.read p = some a → k.read v = some a := by
  rcases ranked_cases h with ⟨htemporal, rfl⟩ | ⟨i, hi, rfl⟩
  · refine ⟨hv, ?_, fun hread => hread⟩
    intro hbeyond
    obtain ⟨t, rfl⟩ := hbeyond.exists_datetime
    cases htemporal
  · have hinstant : (DateTime.ofInstant i).toInstant? = some i := DateTime.toInstant?_ofInstant i
    refine ⟨trivial, ?_, ?_⟩
    · intro hbeyond
      cases hbeyond.symm.trans hinstant
    · intro k a hread
      have hform : moment.read (.ofInstant i) = some i := hinstant
      obtain rfl := eq_of_read hread hform
      rw [hi, ← hread, hform]

/-- Single values any two of which have an order in the form in which they are ranked are all of one kind. -/
theorem exists_ofAll_of_rankedWith (hsingle : ∀ v ∈ values, v.IsSingle)
    (h : ∀ v ∈ values, ∀ w ∈ values, v.RankedWith w) : ∃ k : Kind, k.OfAll values := by
  have hranked : ∀ v ∈ values, rankable v = .ok (ranked v) := by
    intro v hv
    obtain ⟨p, -, -, hp, -⟩ := h v hv v hv
    rw [ranked_eq hp, hp]
  obtain ⟨k, hk⟩ : ∃ k : Kind, k.OfAll (values.map ranked) := by
    refine exists_ofAll ?_ ?_ ?_
    · exact List.forall_mem_map.2 fun v hv => (of_rankable (hsingle v hv) (hranked v hv)).1
    · exact List.forall_mem_map.2 fun v hv => (of_rankable (hsingle v hv) (hranked v hv)).2.1
    · refine List.forall_mem_map.2 fun v hv => List.forall_mem_map.2 fun w hw => ?_
      obtain ⟨p, q, order, hp, hq, horder⟩ := h v hv w hw
      rw [ranked_eq hp, ranked_eq hq]
      exact ⟨order, horder⟩
  refine ⟨k, fun v hv => ?_⟩
  obtain ⟨a, ha⟩ := hk _ (List.mem_map_of_mem hv)
  exact ⟨a, (of_rankable (hsingle v hv) (hranked v hv)).2.2 ha⟩

end Kind

namespace Filter

variable {f : Filter} {idField : String}

/-- A sort by names looks at something in every item. -/
theorem exists_sortSource (hfield : f.sortField.IsSortName) (hsub : f.subId.IsSortName) (hprop : f.subProp.IsSortName)
    (hsort : f.hasSort idField = true) (item : Value) : ∃ source, f.sortSource item = .ok source := by
  obtain ⟨field, hname⟩ := hfield.exists_text (Bool.and_eq_true_iff.1 hsort).1
  cases hnested : f.hasNestedSort with
  | false => exact ⟨_, Kind.sortSource_of_plain hname hnested item⟩
  | true =>
    obtain ⟨name, hsubName⟩ := hsub.exists_text (Bool.and_eq_true_iff.1 hnested).1
    obtain ⟨subProp, hpropName⟩ := hprop.exists_text (Bool.and_eq_true_iff.1 hnested).2
    rw [sortSource_of_nested hname hnested hsubName hpropName item]
    split
    · exact ⟨_, rfl⟩
    · exact ⟨_, rfl⟩

/-- Items that a filter can put in an order: any two of their identifiers have an order and no two are equal, and any
two of the values that the sort looks at in them have an order, in the form in which they are ranked. -/
structure CanOrder (f : Filter) (idField : String) (items : List Value) : Prop where
  sortField : f.sortField.IsSortName
  subId : f.subId.IsSortName
  subProp : f.subProp.IsSortName
  idOrder : ∀ x ∈ items, ∀ y ∈ items, ∃ order, orderOf (x.resolve idField) (y.resolve idField) = .ok (some order)
  distinct : items.Pairwise fun x y => orderOf (x.resolve idField) (y.resolve idField) ≠ .ok (some .eq)
  values : f.hasSort idField = true → ∀ x ∈ items, ∀ y ∈ items, ∀ s t,
    f.sortSource x = .ok s → f.sortSource y = .ok t → ∀ v ∈ s.elements, ∀ w ∈ t.elements, v.RankedWith w

variable {α : Type} {view : α → Value} {items : List α}

/-- The sort values of items that can be put in an order rank values of one kind, the same ones in either direction. -/
theorem CanOrder.exists_ranks (h : f.CanOrder idField (items.map view)) :
    ∃ (k : Kind) (values : Value → List Value),
      (∀ x ∈ items, ∀ d, ∃ value,
        { f with direction := d }.sortValue idField (view x) = .ok value ∧ k.Ranks d (values (view x)) value) ∧
      ∀ item, values item = [] ∨
        f.hasSort idField = true ∧ ∃ source, f.sortSource item = .ok source ∧ source.elements = values item := by
  cases hsort : f.hasSort idField with
  | false =>
    refine ⟨.number, fun _ => [], fun x _ d => ⟨.null, ?_, .none rfl⟩, fun _ => .inl rfl⟩
    have hunsorted : { f with direction := d }.hasSort idField = false := hsort
    rw [sortValue, hunsorted]
    rfl
  | true =>
    choose source hsource using exists_sortSource h.sortField h.subId h.subProp hsort
    obtain ⟨k, hk⟩ : ∃ k : Kind, k.OfAll (items.flatMap fun x => (source (view x)).elements) := by
      refine Kind.exists_ofAll_of_rankedWith ?_ ?_
      · intro v hv
        obtain ⟨x, -, hv⟩ := List.mem_flatMap.1 hv
        exact (source (view x)).isSingle_of_mem_elements v hv
      · intro v hv w hw
        obtain ⟨x, hx, hv⟩ := List.mem_flatMap.1 hv
        obtain ⟨y, hy, hw⟩ := List.mem_flatMap.1 hw
        exact h.values hsort _ (List.mem_map_of_mem hx) _ (List.mem_map_of_mem hy) _ _ (hsource _) (hsource _) v hv w hw
    refine ⟨k, fun item => (source item).elements, fun x hx d => ?_, fun item => .inr ⟨rfl, _, hsource item, rfl⟩⟩
    have hlooked : { f with direction := d }.sortSource (view x) = .ok (source (view x)) := by
      rw [← hsource (view x)]
      refine sortSource_congr ?_ ?_ ?_ _ <;> rfl
    exact Kind.sortValue_of_source hsort hlooked fun v hv => hk v (List.mem_flatMap.2 ⟨x, hx, hv⟩)

/-- The identifiers of items that can be put in an order are in the order of marks. -/
theorem CanOrder.exists_idMark (h : f.CanOrder idField (items.map view)) :
    ∃ idMark : α → Nat, ∀ x ∈ items, ∀ y ∈ items,
      orderOf ((view x).resolve idField) ((view y).resolve idField) = .ok (some (compare (idMark x) (idMark y))) := by
  have hmem {x : α} (hx : x ∈ items) : (view x).resolve idField ∈ items.map fun x => (view x).resolve idField :=
    List.mem_map_of_mem hx
  obtain ⟨mark, horder⟩ := @Value.exists_marks (items.map fun x => (view x).resolve idField)
    (List.forall_mem_map.2 fun x hx => List.forall_mem_map.2 fun y hy =>
      h.idOrder _ (List.mem_map_of_mem hx) _ (List.mem_map_of_mem hy))
  exact ⟨fun x => mark ((view x).resolve idField), fun x hx y hy => horder _ (hmem hx) _ (hmem hy)⟩

/-- Items that can be put in an order are ranked by keys in a linear order, and none of them is there twice. -/
theorem CanOrder.exists_rankedBy (h : f.CanOrder idField (items.map view)) :
    ∃ (K : Type) (_ : LinearOrder K) (key : α → K) (rank : α → RankKey),
      f.RankedBy idField view items key rank ∧ items.Nodup := by
  obtain ⟨idMark, horder⟩ := h.exists_idMark
  obtain ⟨k, values, hvalues, -⟩ := h.exists_ranks
  obtain ⟨⟨rank, hranked⟩, hnodup⟩ := rankedBy_sortKey horder (List.pairwise_map.1 h.distinct)
    fun x hx => hvalues x hx f.direction
  exact ⟨_, _, _, rank, hranked, hnodup⟩

end Filter

/-! ## The order of items -/

/-- Whether one key comes before another: one with a value before one without, two with different values in the order
of these, and otherwise in the order of their identifiers, each seen in the direction of the sort. -/
inductive RankKey.Precedes (d : Direction) : RankKey → RankKey → Prop where
  | missingLast {v p q : Value} : v ≠ .null → Precedes d ⟨v, p⟩ ⟨.null, q⟩
  | byValue {v w p q : Value} : v ≠ .null → w ≠ .null → (rankOf v w).map d.orient = .ok .lt → Precedes d ⟨v, p⟩ ⟨w, q⟩
  | byId {v w p q : Value} : v = .null ∧ w = .null ∨ v ≠ .null ∧ w ≠ .null ∧ rankOf v w = .ok .eq →
      (rankOf p q).map d.orient = .ok .lt → Precedes d ⟨v, p⟩ ⟨w, q⟩

/-- One item ranks before another by their keys. -/
def Filter.RanksBefore (f : Filter) (idField : String) (x y : Value) : Prop :=
  ∃ k l, RankKey.of f idField x = .ok k ∧ RankKey.of f idField y = .ok l ∧ k.Precedes f.direction l

namespace RankKey

variable {d : Direction} {k l : RankKey}

/-- What the test of the sort finds before a key comes before it. -/
theorem precedes_of_before (h : before d k l = .ok true) : k.Precedes d l := by
  obtain ⟨v, p⟩ := k
  obtain ⟨w, q⟩ := l
  have hrank := rank_of_before h
  by_cases hv : v = .null
  · subst hv
    by_cases hw : w = .null
    · subst hw
      exact .byId (.inl ⟨rfl, rfl⟩) hrank
    · rw [rank_null_left hw] at hrank
      cases hrank
  · by_cases hw : w = .null
    · subst hw
      exact .missingLast hv
    · rw [rank_of_ne_null hv hw] at hrank
      cases hvalues : rankOf v w with
      | error fault =>
        rw [hvalues] at hrank
        cases hrank
      | ok order =>
        rw [hvalues] at hrank
        cases order with
        | eq => exact .byId (.inr ⟨hv, hw, hvalues⟩) hrank
        | lt | gt =>
          refine .byValue hv hw ?_
          rw [hvalues]
          exact hrank

/-- The rank of two keys, one of which comes before the other. -/
theorem rank_of_precedes (h : k.Precedes d l) : rank d k l = .ok .lt := by
  cases h with
  | missingLast hv => exact rank_null_right hv _ _
  | @byValue v w p q hv hw hlt =>
    rw [rank_of_ne_null hv hw]
    cases hvalues : rankOf v w with
    | error fault =>
      rw [hvalues] at hlt
      cases hlt
    | ok order =>
      rw [hvalues] at hlt
      cases order with
      | eq => cases d <;> cases hlt
      | lt | gt => exact hlt
  | @byId v w p q hequal hlt =>
    rcases hequal with ⟨rfl, rfl⟩ | ⟨hv, hw, hvalues⟩
    · exact hlt
    · rw [rank_of_ne_null hv hw, hvalues]
      exact hlt

/-- The test of the sort finds one key before another exactly when it comes before it. -/
theorem before_iff_precedes : before d k l = .ok true ↔ k.Precedes d l := by
  refine ⟨precedes_of_before, fun h => ?_⟩
  rw [before, rank_of_precedes h]
  rfl

end RankKey

namespace Filter

variable {α : Type} {f : Filter} {idField : String} {view : α → Value} {items : List α}

/-- Some items are the first of others in the order of a filter, up to a number: each is one of these and there once, in
order, and any other of them ranks after all. -/
structure FirstOf (f : Filter) (idField : String) (view : α → Value) (n : Nat) (all first : List α) : Prop where
  subset : first ⊆ all
  nodup : first.Nodup
  length : first.length = min n all.length
  ordered : first.Pairwise fun x y => f.RanksBefore idField (view x) (view y)
  others : ∀ x ∈ first, ∀ y ∈ all, y ∉ first → f.RanksBefore idField (view x) (view y)

/-- The first items of an arrangement in the order of keys are the first in the order of the filter. -/
theorem RankedBy.firstOf {K : Type} [LinearOrder K] {key : α → K} {rank : α → RankKey}
    (h : f.RankedBy idField view items key rank) {all sorted : List α} (hsub : all ⊆ items) (hperm : sorted.Perm all)
    (horder : sorted.Pairwise fun x y => key x < key y) (n : Nat) : f.FirstOf idField view n all (sorted.take n) := by
  have hbefore : sorted.Pairwise fun x y => f.RanksBefore idField (view x) (view y) := by
    refine horder.imp_of_mem ?_
    intro x y hx hy hlt
    have hx := hsub (hperm.subset hx)
    have hy := hsub (hperm.subset hy)
    refine ⟨rank x, rank y, h.rank_ok x hx, h.rank_ok y hy, RankKey.before_iff_precedes.1 ?_⟩
    rw [h.before_ok x hx y hy, decide_eq_true hlt]
  have hsplit := List.take_append_drop n sorted
  have hcross := (List.pairwise_append.1 (hsplit.symm ▸ hbefore)).2.2
  refine ⟨fun x hx => hperm.subset (List.mem_of_mem_take hx), ?_, ?_, hbefore.sublist (List.take_sublist n sorted), ?_⟩
  · exact (horder.imp fun hlt => ne_of_apply_ne key hlt.ne).sublist (List.take_sublist n sorted)
  · rw [List.length_take, hperm.length_eq]
  · intro x hx y hy hnot
    have hmem : y ∈ sorted.take n ++ sorted.drop n := hsplit.symm ▸ hperm.symm.subset hy
    exact hcross x hx y ((List.mem_append.1 hmem).resolve_left hnot)

/-- Applying a filter with a limit gives the first of the items that match, as many as the limit allows, and gives the
same ones in the same order however the items are arranged. -/
theorem select_firstOf {n : Int} (hlimit : f.limit = .int n) (hn : 1 ≤ n) (h : f.CanOrder idField (items.map view))
    {r : Registry} (haccepts : ∀ x ∈ items, ∃ answer, f.accepts r (view x) = .ok answer) :
    ∃ matched result, f.matching r view items = .ok matched ∧ f.select r idField view items = .ok result ∧
      (matched.Nodup ∧ ∀ x, x ∈ matched ↔ x ∈ items ∧ f.accepts r (view x) = .ok true) ∧
      f.FirstOf idField view n.toNat matched result ∧
      ∀ other, other.Perm items → f.select r idField view other = .ok result := by
  obtain ⟨K, _, key, rank, hranked, hnodup⟩ := h.exists_rankedBy
  choose! accepted haccepted using haccepts
  have hmatching : ∀ other, other.Perm items → f.matching r view other = .ok (other.filter accepted) :=
    fun other hother => matching_of_accepts fun x hx => haccepted x (hother.subset hx)
  obtain ⟨sorted, hperm, horder⟩ := hranked.exists_sorted (List.filter_subset_self items)
    (hnodup.sublist List.filter_sublist)
  -- What matches in another arrangement is an arrangement of what matches, and sorted to the same items.
  have hselect : ∀ other, other.Perm items → f.select r idField view other = .ok (sorted.take n.toNat) := by
    intro other hother
    have hsorted : f.sortItems idField view (other.filter accepted) = .ok sorted := by
      refine hranked.sortItems_eq ?_ (hperm.trans (hother.symm.filter accepted)) horder
      exact fun x hx => hother.subset (List.mem_of_mem_filter hx)
    rw [select, hmatching other hother, ok_bind, hsorted, ok_bind, hlimit]
    exact limited_int (by omega) sorted
  refine ⟨_, _, hmatching items (.refl _), hselect items (.refl _), ⟨hnodup.sublist List.filter_sublist, ?_⟩,
    hranked.firstOf (List.filter_subset_self items) hperm horder n.toNat, hselect⟩
  intro x
  rw [List.mem_filter]
  refine and_congr_right fun hx => ?_
  rw [haccepted x hx, Except.ok.injEq]

theorem resolve_numbered_id (n : Int) (values : List Int) : (numbered n values).resolve "id" = .int n := by
  rw [Value.resolve, (by decide +kernel : Path.parts "id" = ["id"])]
  rfl

theorem elements_numbered (n : Int) (values : List Int) :
    ((numbered n values).resolve "v").elements = values.map Value.int := by
  have hresolve : (numbered n values).resolve "v" = .list (values.map Value.int) := by
    rw [Value.resolve, (by decide +kernel : Path.parts "v" = ["v"])]
    rfl
  rw [hresolve]
  exact Value.elementsOfItems_eq (List.forall_mem_map.2 fun _ _ => rfl)

/-- The two items with the least numbers, of all but the third. -/
def leastTwo : Filter :=
  { byNumbers with statements := statementsOf [[[("id", .neq (.int 3))]]], limit := .int 2 }

/-- Items with numbers, or without any. -/
def numberedItems : List (Int × List Int) :=
  [(4, [9, 3]), (1, []), (3, [1]), (2, [3, 7])]

/-- The items with numbers as values. -/
def viewNumbered (item : Int × List Int) : Value :=
  numbered item.1 item.2

/-- Items with different numbers as identifiers can be put in an order by the numbers that they have. -/
theorem canOrder_numbered {f : Filter} (hfield : f.sortField = .text "v") (hsub : f.subId = .null)
    (hprop : f.subProp = .null) {items : List (Int × List Int)} (hdistinct : items.Pairwise fun x y => x.1 ≠ y.1) :
    f.CanOrder "id" (items.map viewNumbered) := by
  have hplain : f.hasNestedSort = false := by
    rw [hasNestedSort, hsub]
    rfl
  have hnumbers : ∀ item ∈ items.map viewNumbered, ∀ source, f.sortSource item = .ok source →
      Kind.number.OfAll source.elements := by
    refine List.forall_mem_map.2 fun item _ source hsource => ?_
    obtain rfl := Except.ok.inj ((Kind.sortSource_of_plain hfield hplain _).symm.trans hsource)
    rw [viewNumbered, elements_numbered]
    exact List.forall_mem_map.2 fun n _ => ⟨_, rfl⟩
  have hcompare : ∀ n m : Int, orderOf (.int n) (.int m) = .ok (some (compare n m)) := Scale.orderOf_form .whole
  have hnull : Value.null.IsSortName := trivial
  refine ⟨hfield ▸ trivial, hsub ▸ hnull, hprop ▸ hnull, ?_, ?_, ?_⟩
  · refine List.forall_mem_map.2 fun x _ => List.forall_mem_map.2 fun y _ => ?_
    rw [viewNumbered, viewNumbered, resolve_numbered_id, resolve_numbered_id, hcompare]
    exact ⟨_, rfl⟩
  · refine List.pairwise_map.2 (hdistinct.imp ?_)
    intro x y hne
    rw [viewNumbered, viewNumbered, resolve_numbered_id, resolve_numbered_id, hcompare]
    simpa using hne
  · intro _ x hx y hy s t hs ht v hv w hw
    obtain ⟨a, ha⟩ := hnumbers x hx s hs v hv
    obtain ⟨b, hb⟩ := hnumbers y hy t ht w hw
    exact Kind.rankedWith_of_read ha hb

/-- Items two and four have the same least number, so they are told apart by their identifiers; the item without a
number is left out. -/
theorem select_firstOf_leastTwo :
    leastTwo.select (.standard .atStart) "id" viewNumbered numberedItems = .ok [(2, [3, 7]), (4, [9, 3])] ∧
      leastTwo.FirstOf "id" viewNumbered 2 [(4, [9, 3]), (1, []), (2, [3, 7])] [(2, [3, 7]), (4, [9, 3])] ∧
      leastTwo.select (.standard .atStart) "id" viewNumbered numberedItems.reverse = .ok [(2, [3, 7]), (4, [9, 3])] := by
  have haccepts : ∀ item ∈ numberedItems, ∃ answer,
      leastTwo.accepts (.standard .atStart) (viewNumbered item) = .ok answer := by
    simp only [numberedItems, List.forall_mem_cons]
    exact ⟨⟨true, rfl⟩, ⟨true, rfl⟩, ⟨false, rfl⟩, ⟨true, rfl⟩, nofun⟩
  obtain ⟨matched, result, hmatched, hresult, -, hfirst, hother⟩ :=
    select_firstOf rfl (by decide) (canOrder_numbered rfl rfl rfl (by decide)) haccepts
  have hmatching : leastTwo.matching (.standard .atStart) viewNumbered numberedItems =
      .ok [(4, [9, 3]), (1, []), (2, [3, 7])] := rfl
  have hselect : leastTwo.select (.standard .atStart) "id" viewNumbered numberedItems =
      .ok [(2, [3, 7]), (4, [9, 3])] := rfl
  obtain rfl := Except.ok.inj (hmatched.symm.trans hmatching)
  obtain rfl := Except.ok.inj (hresult.symm.trans hselect)
  exact ⟨hselect, hfirst, hother _ (List.reverse_perm numberedItems)⟩

end Filter

end Winnow
