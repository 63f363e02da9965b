import Winnow.Proofs.AfterItem
import Winnow.Proofs.Kinds
import Winnow.Proofs.Paging

/-!
# Continuing after items with many values

Sorting ranks an item by one of its values, the least or the greatest; a condition of the statement for the next page
holds when any value of an item meets it. So that statement selects the items that rank after the last one, and beside
them each item that would do so if a certain one of its values were its only one
(`Filter.continueAfter_selects_iff`). An item that ranks after the last one is never left out; one that ranks before it
may be selected again, and the last item itself is selected again exactly when it has two different values
(`Filter.continueAfter_selects_self_iff`).
-/

namespace Winnow

namespace Kind

variable {k : Kind} {d : Direction}

/-- Whether some values are all of a kind. -/
def OfAll (k : Kind) (values : List Value) : Prop :=
  ∀ v ∈ values, ∃ a, k.read v = some a

/-! ## Conditions on values of a kind -/

section Conditions

variable {value w : Value} {b : k.Mark}

theorem resolve_of_read (h : k.read w = some b) (clock : Clock) (bound : Bound) :
    RelativeDate.resolve clock bound w = .ok w := by
  cases w with
  | daysAgo days => cases k <;> cases h
  | _ => rfl

/-- A field with values of a kind is within a bound when the mark of one of them is. -/
theorem evaluate_within (hvalues : k.OfAll value.elements) (hw : k.read w = some b) (clock : Clock) (bound : Bound) :
    (Registry.standard clock).evaluate (.within bound w) value =
      .ok (value.elements.any fun v => bound.admits ((k.read v).map fun a => compare a b)) := by
  rw [Condition.within, Registry.evaluate_compare]
  show (RelativeDate.resolve clock bound w >>= fun limit => Comparison.withinBound bound value.elements limit) = _
  rw [resolve_of_read hw, ok_bind]
  refine Comparison.withinBound_of bound fun v hv => ?_
  obtain ⟨a, ha⟩ := hvalues v hv
  obtain ⟨pair, hpair, -, horder⟩ := comparable_of_read ha hw
  exact ⟨pair, hpair, by rw [horder, ha, Option.map_some]⟩

/-- A field with values of a kind equals a value when the mark of one of them does. -/
theorem evaluate_eq (hvalues : k.OfAll value.elements) (hw : k.read w = some b) (clock : Clock) :
    (Registry.standard clock).evaluate (.eq w) value =
      .ok (value.elements.any fun v => (k.read v).any fun a => decide (a = b)) := by
  have hcontains : Comparison.eq.holds clock value.elements w = Comparison.contains value.elements w := by
    cases w with
    | null => exact absurd rfl (ne_null_of_read hw)
    | _ => rfl
  rw [Condition.eq, Registry.evaluate_compare, hcontains]
  refine Comparison.contains_of fun v hv => ?_
  obtain ⟨a, ha⟩ := hvalues v hv
  obtain ⟨pair, hpair, hsame, -⟩ := comparable_of_read ha hw
  exact ⟨pair, hpair, by rw [hsame, ha, Option.any_some]⟩

theorem evaluate_missing (clock : Clock) (value : Value) :
    (Registry.standard clock).evaluate (.eq .null) value = .ok value.elements.isEmpty := by
  rw [Condition.eq, Registry.evaluate_compare]
  rfl

end Conditions

/-- Conditions probe an item for some values of a kind: with a bound or equality, for one that meets it, and for none at
all. -/
structure ProbesMany (k : Kind) (clock : Clock) (probe : Condition → Query) (missing : Query) (item : Value)
    (values : List Value) : Prop where
  within (bound : Bound) {w : Value} {b : k.Mark} : k.read w = some b →
    (Registry.standard clock).matchesQuery (probe (.within bound w)) item =
      .ok (values.any fun v => bound.admits ((k.read v).map fun a => compare a b))
  equal {w : Value} {b : k.Mark} : k.read w = some b →
    (Registry.standard clock).matchesQuery (probe (.eq w)) item =
      .ok (values.any fun v => (k.read v).any fun a => decide (a = b))
  missing : (Registry.standard clock).matchesQuery missing item = .ok values.isEmpty

/-- A field of its own is probed by conditions on it. -/
theorem probesMany_field {item : Value} {field : String} (hvalues : k.OfAll (item.resolve field).elements)
    (clock : Clock) : ProbesMany k clock (Query.single field) (Query.single field (.eq .null)) item
      (item.resolve field).elements where
  within bound _ _ hw := Registry.matchesQuery_single (evaluate_within hvalues hw clock bound)
  equal hw := Registry.matchesQuery_single (evaluate_eq hvalues hw clock)
  missing := Registry.matchesQuery_single (evaluate_missing clock _)

/-! ## The value that an item is ranked by -/

theorem replaces_iff {α : Type} [LinearOrder α] {a b : α} : compare a b = d.replaces ↔ d.ranked a < d.ranked b := by
  cases d with
  | asc => exact compare_lt_iff_lt
  | desc => exact compare_gt_iff_gt

/-- The extreme of some values of a kind is one of them, and the mark of no other comes before its own. -/
theorem extremeFrom_ranked {values : List Value} (hvalues : k.OfAll values) {best : Value} {a : k.Mark}
    (hbest : k.read best = some a) :
    ∃ v m, v ∈ best :: values ∧ k.read v = some m ∧
      extremeFrom d (ranked best) (values.map ranked) = .ok (ranked v) ∧
      ∀ w ∈ best :: values, ∀ b, k.read w = some b → d.ranked m ≤ d.ranked b := by
  induction values generalizing best a with
  | nil =>
    refine ⟨best, a, .head _, hbest, rfl, ?_⟩
    intro w hw b hb
    obtain rfl := List.mem_singleton.1 hw
    rw [hbest] at hb
    cases hb
    exact le_rfl
  | cons w rest ih =>
    have hrest : k.OfAll rest := fun v hv => hvalues v (.tail _ hv)
    obtain ⟨c, hc⟩ := hvalues w (.head _)
    rw [List.map_cons, extremeFrom, orderOf_ranked hc hbest, ok_bind]
    simp only [Option.some_inj, replaces_iff]
    -- Whichever of the two is kept, the mark of the other one does not come before its own.
    by_cases hlt : d.ranked c < d.ranked a
    · obtain ⟨v, m, hv, hm, hextreme, hleast⟩ := ih hrest hc
      rw [if_pos hlt]
      refine ⟨v, m, .tail _ hv, hm, hextreme, ?_⟩
      intro u hu b hb
      rcases List.mem_cons.1 hu with rfl | hu
      · rw [hbest] at hb
        cases hb
        exact (hleast w (.head _) c hc).trans hlt.le
      · exact hleast u hu b hb
    · obtain ⟨v, m, hv, hm, hextreme, hleast⟩ := ih hrest hbest
      rw [if_neg hlt]
      refine ⟨v, m, ?_, hm, hextreme, ?_⟩
      · rcases List.mem_cons.1 hv with rfl | hv
        · exact .head _
        · exact .tail _ (.tail _ hv)
      · intro u hu b hb
        rcases List.mem_cons.1 hu with rfl | hu
        · exact hleast u (.head _) b hb
        · rcases List.mem_cons.1 hu with rfl | hu
          · rw [hc] at hb
            cases hb
            exact (hleast best (.head _) a hbest).trans (not_lt.1 hlt)
          · exact hleast u (.tail _ hu) b hb

/-- The value that ranks an item with values of a kind: one of them, whose mark none comes before, or null when there
are none. -/
inductive Ranks (k : Kind) (d : Direction) (values : List Value) : Value → Prop where
  | none (h : values = []) : Ranks k d values .null
  | some {v : Value} {a : k.Mark} (hv : v ∈ values) (ha : k.read v = some a)
      (hleast : ∀ w ∈ values, ∀ b, k.read w = some b → d.ranked a ≤ d.ranked b) : Ranks k d values (ranked v)

/-- The sort value of an item ranks what the sort looks at in it. -/
theorem sortValue_of_source {f : Filter} {idField : String} {item source : Value} (hsort : f.hasSort idField = true)
    (hsource : f.sortSource item = .ok source) (hvalues : k.OfAll source.elements) :
    ∃ value, f.sortValue idField item = .ok value ∧ Ranks k f.direction source.elements value := by
  have hranked : source.elements.mapM rankable = .ok (source.elements.map ranked) := by
    refine mapM_ok fun v hv => ?_
    obtain ⟨a, ha⟩ := hvalues v hv
    exact (rankable_of_read ha).1
  rw [Filter.sortValue, if_pos hsort, hsource, ok_bind, hranked, ok_bind]
  cases helements : source.elements with
  | nil => exact ⟨.null, rfl, .none rfl⟩
  | cons best rest =>
    rw [helements] at hvalues
    obtain ⟨a, ha⟩ := hvalues best (.head _)
    obtain ⟨v, m, hv, hm, hextreme, hleast⟩ :=
      extremeFrom_ranked (d := f.direction) (fun w hw => hvalues w (.tail _ hw)) ha
    exact ⟨ranked v, hextreme, .some hv hm hleast⟩

/-- A sort by a field of its own looks at that field. -/
theorem sortSource_of_plain {f : Filter} {field : String} (hfield : f.sortField = .text field)
    (hplain : f.hasNestedSort = false) (item : Value) : f.sortSource item = .ok (item.resolve field) := by
  rw [Filter.sortSource, hfield]
  show (if f.hasNestedSort = true then _ else _) = _
  rw [hplain]
  rfl

theorem sortValue_of_ofAll {f : Filter} {idField field : String} {item : Value} (hfield : f.sortField = .text field)
    (hplain : f.hasNestedSort = false) (hsort : f.hasSort idField = true)
    (hvalues : k.OfAll (item.resolve field).elements) :
    ∃ value, f.sortValue idField item = .ok value ∧ Ranks k f.direction (item.resolve field).elements value :=
  sortValue_of_source hsort (sortSource_of_plain hfield hplain item) hvalues

/-- A key ranks before another by the marks of their values, and by those of their identifiers where these are
equal. -/
theorem before_ranked {I : Type} [LinearOrder I] {v w p q : Value} {a b : k.Mark} {i j : I} (hv : k.read v = some a)
    (hw : k.read w = some b) (hid : orderOf p q = .ok (some (compare i j))) :
    RankKey.before d ⟨ranked v, p⟩ ⟨ranked w, q⟩ =
      .ok (decide (d.ranked a < d.ranked b ∨ a = b ∧ d.ranked i < d.ranked j)) := by
  have hrank := RankKey.rank_of_ne_null (d := d) (ne_null_of_read (rankable_of_read hv).2)
    (ne_null_of_read (rankable_of_read hw).2) p q
  rw [rankOf, orderOf_ranked hv hw] at hrank
  suffices ∃ order, RankKey.rank d ⟨ranked v, p⟩ ⟨ranked w, q⟩ = .ok order ∧
      (order = .lt ↔ d.ranked a < d.ranked b ∨ a = b ∧ d.ranked i < d.ranked j) by
    obtain ⟨order, horder, hlt⟩ := this
    rw [RankKey.before, horder, map_ok, beq_eq_decide, decide_eq_decide.2 hlt]
  by_cases hab : a = b
  · subst hab
    have hself : compare a a = .eq := compare_eq_iff_eq.2 rfl
    rw [hself] at hrank
    refine ⟨d.orient (compare i j), hrank.trans ?_, ?_⟩
    · show (rankOf p q).map d.orient = _
      rw [rankOf, hid]
      rfl
    · rw [Direction.orient_compare_eq_lt]
      simp
  · have hne : compare a b ≠ .eq := compare_eq_iff_eq.not.2 hab
    refine ⟨d.orient (compare a b), hrank.trans ?_, ?_⟩
    · obtain ⟨order, horder⟩ : ∃ order, compare a b = order := ⟨_, rfl⟩
      rw [horder] at hne ⊢
      cases order with
      | eq => exact absurd rfl hne
      | lt | gt => rfl
    · rw [Direction.orient_compare_eq_lt]
      simp [hab]

/-- Whether one of some values has a mark that comes after another one, alone or with the identifier. -/
def SomeAfter (d : Direction) {k ids : Kind} (a : k.Mark) (i : ids.Mark) (values : List Value) (j : ids.Mark) : Prop :=
  ∃ v ∈ values, ∃ b, k.read v = some b ∧ (d.ranked a < d.ranked b ∨ a = b ∧ d.ranked i < d.ranked j)

/-! ## The statement for the next page -/

section Statement

variable {item : Value} {field idField : String} {ids : Kind} {i j : ids.Mark} {tieBreak : String × Condition}

/-- The identifier of an item comes after another one when its mark does. -/
theorem matchesQuery_tieBreak {lastId : Value} (hi : ids.read lastId = some i)
    (hj : ids.read (item.resolve idField) = some j) (clock : Clock) :
    (Registry.standard clock).matchesQuery [(idField, .within d.afterBound lastId)] item =
      .ok (decide (d.ranked i < d.ranked j)) := by
  have hself := elements_of_read hj
  have hids : ids.OfAll (item.resolve idField).elements := by
    rw [hself]
    exact List.forall_mem_singleton.2 ⟨j, hj⟩
  refine (Registry.matchesQuery_single (evaluate_within hids hi clock d.afterBound)).trans ?_
  rw [hself, List.any_cons, List.any_nil, Bool.or_false, hj, Option.map_some, Direction.admits_afterBound]

/-- The alternatives after an item without a value ask for an item without one and with a later identifier. -/
theorem anyPasses_after_none {clock : Clock} {later same : Query}
    (htie : (Registry.standard clock).matchesQuery [tieBreak] item = .ok (decide (d.ranked i < d.ranked j))) :
    anyPasses (fun q => (Registry.standard clock).matchesQuery q item)
        (Paging.alternatives .null later same (Query.single field (.eq .null)) tieBreak) =
      .ok ((item.resolve field).elements.isEmpty && decide (d.ranked i < d.ranked j)) := by
  have hmissing := Registry.matchesQuery_single (evaluate_missing clock (item.resolve field))
  refine (Registry.anyPasses_query_cons (Registry.matchesQuery_append hmissing htie) rfl).trans ?_
  rw [Bool.or_false]

/-- The alternatives after an item with a value hold of an item without one, and of one with a value that comes
after. -/
theorem anyPasses_after_some {clock : Clock} {v : Value} {a : k.Mark} (hv : k.read v = some a)
    (hitem : k.OfAll (item.resolve field).elements)
    (htie : (Registry.standard clock).matchesQuery [tieBreak] item = .ok (decide (d.ranked i < d.ranked j))) :
    ∃ answer, anyPasses (fun q => (Registry.standard clock).matchesQuery q item)
        (Paging.byField field v d.afterBound tieBreak) = .ok answer ∧
      (answer = true ↔ (item.resolve field).elements = [] ∨ SomeAfter d a i (item.resolve field).elements j) := by
  have hprobes := probesMany_field hitem clock
  rw [Paging.byField, Paging.alternatives_of_ne_null (ne_null_of_read hv)]
  refine ⟨_, Registry.anyPasses_query_cons (hprobes.within d.afterBound hv) (Registry.anyPasses_query_cons
    (Registry.matchesQuery_append (hprobes.equal hv) htie) (Registry.anyPasses_query_cons hprobes.missing rfl)), ?_⟩
  rw [Bool.or_eq_true, Bool.or_eq_true, Bool.and_eq_true, Bool.or_false, List.any_eq_true, List.any_eq_true,
    List.isEmpty_iff, decide_eq_true_iff]
  constructor
  · rintro (⟨w, hw, hadmits⟩ | ⟨⟨w, hw, hequal⟩, hlt⟩ | hempty)
    · obtain ⟨b, hb⟩ := hitem w hw
      rw [hb, Option.map_some, Direction.admits_afterBound, decide_eq_true_iff] at hadmits
      exact .inr ⟨w, hw, b, hb, .inl hadmits⟩
    · obtain ⟨b, hb⟩ := hitem w hw
      rw [hb, Option.any_some, decide_eq_true_iff] at hequal
      exact .inr ⟨w, hw, b, hb, .inr ⟨hequal.symm, hlt⟩⟩
    · exact .inl hempty
  · rintro (hempty | ⟨w, hw, b, hb, hlt | ⟨rfl, hlt⟩⟩)
    · exact .inr (.inr hempty)
    · refine .inl ⟨w, hw, ?_⟩
      rw [hb, Option.map_some, Direction.admits_afterBound, decide_eq_true_iff]
      exact hlt
    · refine .inr (.inl ⟨⟨w, hw, ?_⟩, hlt⟩)
      rw [hb, Option.any_some, decide_eq_true_iff]

end Statement

end Kind

/-- Two items that can be told apart by a sort: their values in a field are of one kind, and so are their identifiers,
which have an order. -/
structure Sortable (idField field : String) (k ids : Kind) (last item : Value) : Prop where
  lastValues : k.OfAll (last.resolve field).elements
  itemValues : k.OfAll (item.resolve field).elements
  lastId : ∃ i, ids.read (last.resolve idField) = some i
  itemId : ∃ j, ids.read (item.resolve idField) = some j
  idOrder : ∃ order, orderOf (last.resolve idField) (item.resolve idField) = .ok (some order)

namespace RankKey

variable {d : Direction} {k ids : Kind} {p q value : Value} {values : List Value} {i j : ids.Mark}

/-- Whether an item with an identifier would rank after a key if one of its values were its only one. -/
def BeforeSome (d : Direction) (last : RankKey) (values : List Value) (id : Value) : Prop :=
  ∃ v ∈ values, ∃ w, rankable v = .ok w ∧ before d last ⟨w, id⟩ = .ok true

/-- Two keys without a value are ranked by their identifiers. -/
theorem before_null {I : Type} [LinearOrder I] {i j : I} (hid : orderOf p q = .ok (some (compare i j))) :
    before d ⟨.null, p⟩ ⟨.null, q⟩ = .ok (decide (d.ranked i < d.ranked j)) := by
  have hrank : rank d ⟨.null, p⟩ ⟨.null, q⟩ = .ok (d.orient (compare i j)) := by
    show (rankOf p q).map d.orient = _
    rw [rankOf, hid]
    rfl
  rw [before, hrank, map_ok, beq_eq_decide, decide_eq_decide.2 Direction.orient_compare_eq_lt]

/-- A key without a value ranks before none with one. -/
theorem before_null_left {w : Value} (hw : w ≠ .null) : before d ⟨.null, p⟩ ⟨w, q⟩ = .ok false := by
  rw [before, rank_null_left hw]
  rfl

/-- A key with a value ranks before every one without. -/
theorem before_null_right {v : Value} (hv : v ≠ .null) : before d ⟨v, p⟩ ⟨.null, q⟩ = .ok true := by
  rw [before, rank_null_right hv]
  rfl

/-- Only items without a value rank after one without. -/
theorem before_none (hitem : k.Ranks d values value) (hid : orderOf p q = .ok (some (compare i j))) :
    before d ⟨.null, p⟩ ⟨value, q⟩ = .ok (values.isEmpty && decide (d.ranked i < d.ranked j)) := by
  cases hitem with
  | none hempty =>
    rw [before_null hid, hempty]
    rfl
  | some hv ha hleast =>
    rw [before_null_left (Kind.ne_null_of_read (Kind.rankable_of_read ha).2),
      List.isEmpty_eq_false_iff.2 (List.ne_nil_of_mem hv)]
    rfl

theorem not_beforeSome_null (hvalues : k.OfAll values) : ¬BeforeSome d ⟨.null, p⟩ values q := by
  rintro ⟨v, hv, w, hw, hbefore⟩
  obtain ⟨b, hb⟩ := hvalues v hv
  obtain ⟨hranked, hread⟩ := Kind.rankable_of_read hb
  obtain rfl := Except.ok.inj (hranked.symm.trans hw)
  rw [before_null_left (Kind.ne_null_of_read hread)] at hbefore
  cases hbefore

section Some

variable {u : Value} {a : k.Mark}

/-- One of some values ranks after a key when its mark comes after that of the key. -/
theorem beforeSome_iff (hu : k.read u = some a) (hvalues : k.OfAll values)
    (hid : orderOf p q = .ok (some (compare i j))) :
    BeforeSome d ⟨Kind.ranked u, p⟩ values q ↔ Kind.SomeAfter d a i values j := by
  constructor
  · rintro ⟨v, hv, w, hw, hbefore⟩
    obtain ⟨b, hb⟩ := hvalues v hv
    obtain rfl := Except.ok.inj ((Kind.rankable_of_read hb).1.symm.trans hw)
    rw [Kind.before_ranked hu hb hid] at hbefore
    exact ⟨v, hv, b, hb, of_decide_eq_true (Except.ok.inj hbefore)⟩
  · rintro ⟨v, hv, b, hb, hafter⟩
    refine ⟨v, hv, Kind.ranked v, (Kind.rankable_of_read hb).1, ?_⟩
    rw [Kind.before_ranked hu hb hid, decide_eq_true hafter]

/-- An item that ranks after a key has no values or one that comes after; where its values have one mark, the converse
holds as well. -/
theorem before_some (hu : k.read u = some a) (hitem : k.Ranks d values value)
    (hid : orderOf p q = .ok (some (compare i j))) :
    ∃ after, before d ⟨Kind.ranked u, p⟩ ⟨value, q⟩ = .ok after ∧
      (values = [] ∨ Kind.SomeAfter d a i values j ↔ after = true ∨ Kind.SomeAfter d a i values j) ∧
      ((∀ v ∈ values, ∀ w ∈ values, k.read v = k.read w) →
        (values = [] ∨ Kind.SomeAfter d a i values j ↔ after = true)) := by
  cases hitem with
  | none hempty =>
    refine ⟨true, before_null_right (Kind.ne_null_of_read (Kind.rankable_of_read hu).2), ?_, fun _ => ?_⟩
    · simp only [hempty, true_or]
    · simp only [hempty, true_or]
  | @some v b hv hb hleast =>
    have hsome : values ≠ [] := List.ne_nil_of_mem hv
    refine ⟨_, Kind.before_ranked hu hb hid, ?_, fun hequal => ?_⟩
    · simp only [hsome, false_or, decide_eq_true_iff]
      -- An item that ranks after the key does so by a value of its own.
      exact ⟨.inr, fun hafter => hafter.elim (fun hlt => ⟨v, hv, b, hb, hlt⟩) (fun hlt => hlt)⟩
    · simp only [hsome, false_or, decide_eq_true_iff]
      constructor
      · rintro ⟨w, hw, c, hc, hafter⟩
        obtain rfl : b = c := Option.some.inj (hb.symm.trans ((hequal v hv w hw).trans hc))
        exact hafter
      · exact fun hafter => ⟨v, hv, b, hb, hafter⟩

end Some

end RankKey

namespace Filter

variable {f : Filter} {idField field : String} {k ids : Kind} {last item : Value}

theorem rankKey_of_sortValue {value : Value} (h : f.sortValue idField item = .ok value) :
    RankKey.of f idField item = .ok ⟨value, item.resolve idField⟩ := by
  rw [RankKey.of, h]
  rfl

/-- The queries for what ranks after an item in a sort by a field of its own. -/
theorem afterItem_of_sortValue (hfield : f.sortField = .text field) (hplain : f.hasNestedSort = false)
    (hsort : f.hasSort idField = true) {value : Value} (h : f.sortValue idField last = .ok value) (lastId : Value) :
    f.afterItem idField last lastId =
      .ok (Paging.byField field value f.direction.afterBound (idField, .within f.direction.afterBound lastId)) := by
  unfold afterItem
  simp only [hsort, if_true, h, ok_bind, hfield, hplain]
  rfl

/-- A field that is sorted by has a name. -/
theorem ne_empty_of_hasSort (hfield : f.sortField = .text field) (hsort : f.hasSort idField = true) : field ≠ "" := by
  rintro rfl
  rw [hasSort, hfield] at hsort
  cases hsort

/-- The queries for what ranks after an item in a sort by a property of one element of a collection. -/
theorem afterItem_byElement {subProp : String} (hfield : f.sortField = .text field) (hprop : f.subProp = .text subProp)
    (hnested : f.hasNestedSort = true) (hsort : f.hasSort idField = true) {value : Value}
    (h : f.sortValue idField last = .ok value) (lastId : Value) :
    f.afterItem idField last lastId = .ok (Paging.byElement field f.subId subProp value f.direction.afterBound
      (idField, .within f.direction.afterBound lastId)) := by
  unfold afterItem
  simp only [hsort, if_true, h, ok_bind, hfield, hnested, hprop]
  rfl

/-- The queries for what ranks after an item in a sort by identifiers alone. -/
theorem afterItem_unsorted (hsort : ¬f.hasSort idField = true) (lastId : Value) :
    f.afterItem idField last lastId = .ok [[(idField, .within f.direction.afterBound lastId)]] := by
  unfold afterItem
  simp only [hsort]
  rfl

/-- The statement for what ranks after an item selects the items that do, and those that would do so if one of their
values were their only one; where an item has no two different values, these are no others. -/
theorem continueAfter_selects_iff (hfield : f.sortField = .text field) (hplain : f.hasNestedSort = false)
    (h : Sortable idField field k ids last item) (clock : Clock) :
    ∃ queries answer lastKey itemKey after,
      (f.continueAfter idField last).result = .ok { f with statements := f.statements ++ statementsOf [queries] } ∧
      (Registry.standard clock).matchesStatement (queries.map .query) item = .ok answer ∧
      RankKey.of f idField last = .ok lastKey ∧ RankKey.of f idField item = .ok itemKey ∧
      RankKey.before f.direction lastKey itemKey = .ok after ∧
      (answer = true ↔ after = true ∨ f.hasSort idField = true ∧
        lastKey.BeforeSome f.direction (item.resolve field).elements (item.resolve idField)) ∧
      ((∀ v ∈ (item.resolve field).elements, ∀ w ∈ (item.resolve field).elements, k.read v = k.read w) →
        answer = after) := by
  obtain ⟨i, hi⟩ := h.lastId
  obtain ⟨j, hj⟩ := h.itemId
  obtain ⟨order, horder⟩ := h.idOrder
  obtain rfl := Kind.orderOf_eq hi hj horder
  have htie := Kind.matchesQuery_tieBreak (d := f.direction) hi hj clock
  have hid := Kind.ne_null_of_read hi
  simp only [Registry.matchesStatement_map]
  by_cases hsort : f.hasSort idField = true
  · obtain ⟨lastValue, hlastValue, hlast⟩ := Kind.sortValue_of_ofAll hfield hplain hsort h.lastValues
    obtain ⟨itemValue, hitemValue, hitem⟩ := Kind.sortValue_of_ofAll hfield hplain hsort h.itemValues
    have hresult := result_continueAfter rfl hid
      (afterItem_of_sortValue hfield hplain hsort hlastValue (last.resolve idField))
    cases hlast with
    | none =>
      have hnone := RankKey.not_beforeSome_null (d := f.direction) (p := last.resolve idField)
        (q := item.resolve idField) h.itemValues
      refine ⟨_, _, _, _, _, hresult, Kind.anyPasses_after_none htie, rankKey_of_sortValue hlastValue,
        rankKey_of_sortValue hitemValue, RankKey.before_none hitem horder, ?_, fun _ => rfl⟩
      simp only [hnone, and_false, or_false]
    | some hu ha hleast =>
      obtain ⟨answer, hanswer, hiff⟩ := Kind.anyPasses_after_some (Kind.rankable_of_read ha).2 h.itemValues htie
      obtain ⟨after, hafter, hselected, hsame⟩ := RankKey.before_some ha hitem horder
      refine ⟨_, answer, _, _, after, hresult, hanswer, rankKey_of_sortValue hlastValue,
        rankKey_of_sortValue hitemValue, hafter, ?_, fun hequal => Bool.eq_iff_iff.2 (hiff.trans (hsame hequal))⟩
      rw [hiff, hselected, RankKey.beforeSome_iff ha h.itemValues horder, and_iff_right hsort]
  · have hnull : ∀ item, f.sortValue idField item = .ok .null := fun item => by rw [sortValue, if_neg hsort]
    refine ⟨_, _, _, _, _, result_continueAfter rfl hid (afterItem_unsorted hsort _),
      Registry.anyPasses_query_cons htie rfl, rankKey_of_sortValue (hnull last), rankKey_of_sortValue (hnull item),
      RankKey.before_null horder, ?_, fun _ => Bool.or_false _⟩
    simp [hsort]

/-- In a sort by a field, an item is selected for what ranks after itself exactly when it has two different values. -/
theorem continueAfter_selects_self_iff (hfield : f.sortField = .text field) (hplain : f.hasNestedSort = false)
    (hsort : f.hasSort idField = true) (hvalues : k.OfAll (last.resolve field).elements) {i : ids.Mark}
    (hid : ids.read (last.resolve idField) = some i) (clock : Clock) :
    ∃ queries answer,
      (f.continueAfter idField last).result = .ok { f with statements := f.statements ++ statementsOf [queries] } ∧
      (Registry.standard clock).matchesStatement (queries.map .query) last = .ok answer ∧
      (answer = true ↔
        ∃ v ∈ (last.resolve field).elements, ∃ w ∈ (last.resolve field).elements, k.read v ≠ k.read w) := by
  have htie := Kind.matchesQuery_tieBreak (d := f.direction) hid hid clock
  obtain ⟨lastValue, hlastValue, hlast⟩ := Kind.sortValue_of_ofAll hfield hplain hsort hvalues
  have hresult := result_continueAfter rfl (Kind.ne_null_of_read hid)
    (afterItem_of_sortValue hfield hplain hsort hlastValue (last.resolve idField))
  simp only [Registry.matchesStatement_map]
  cases hlast with
  | none hempty =>
    refine ⟨_, _, hresult, Kind.anyPasses_after_none htie, ?_⟩
    simp [hempty]
  | @some u a hu ha hleast =>
    obtain ⟨answer, hanswer, hiff⟩ := Kind.anyPasses_after_some (Kind.rankable_of_read ha).2 hvalues htie
    refine ⟨_, answer, hresult, hanswer, hiff.trans ?_⟩
    have hsome : (last.resolve field).elements ≠ [] := List.ne_nil_of_mem hu
    simp only [Kind.SomeAfter, hsome, false_or, lt_irrefl, and_false, or_false]
    constructor
    · rintro ⟨v, hv, b, hb, hlt⟩
      refine ⟨u, hu, v, hv, fun hequal => ?_⟩
      obtain rfl : a = b := Option.some.inj (ha.symm.trans (hequal.trans hb))
      exact lt_irrefl _ hlt
    -- Of two different marks, one is not that of the least value, so it comes after.
    · rintro ⟨v, hv, w, hw, hne⟩
      have hother : ∃ x ∈ (last.resolve field).elements, k.read x ≠ k.read u := by
        by_cases hvu : k.read v = k.read u
        · exact ⟨w, hw, fun hwu => hne (hvu.trans hwu.symm)⟩
        · exact ⟨v, hv, hvu⟩
      obtain ⟨x, hx, hxu⟩ := hother
      obtain ⟨b, hb⟩ := hvalues x hx
      refine ⟨x, hx, b, hb, lt_of_le_of_ne (hleast x hx b hb) fun hequal => hxu ?_⟩
      rw [hb, ha, Direction.ranked_inj.1 hequal]

/-- An item with an identifier and the whole numbers of a list. -/
def numbered (id : Int) (values : List Int) : Value :=
  .object [("id", .int id), ("v", .list (values.map Value.int))]

/-- All items, by the least of their numbers. -/
def byNumbers : Filter :=
  { sortField := .text "v" }

/-- An item with numbers on both sides of the least of the last one. -/
theorem continueAfter_selects_iff_around :
    Sortable "id" "v" .number .number (numbered 1 [3, 7]) (numbered 2 [2, 9]) ∧
      ∃ queries answer lastKey itemKey after,
        (byNumbers.continueAfter "id" (numbered 1 [3, 7])).result =
          .ok { byNumbers with statements := statementsOf [queries] } ∧
        (Registry.standard .atStart).matchesStatement (queries.map .query) (numbered 2 [2, 9]) = .ok answer ∧
        RankKey.of byNumbers "id" (numbered 1 [3, 7]) = .ok lastKey ∧
        RankKey.of byNumbers "id" (numbered 2 [2, 9]) = .ok itemKey ∧
        RankKey.before .asc lastKey itemKey = .ok after ∧
        (answer = true ↔ after = true ∨ lastKey.BeforeSome .asc [.int 2, .int 9] (.int 2)) := by
  have hwhole : ∀ n : Int, ∃ a, Kind.number.read (.int n) = some a := fun n => ⟨_, rfl⟩
  have hsortable : Sortable "id" "v" .number .number (numbered 1 [3, 7]) (numbered 2 [2, 9]) := by
    refine ⟨?_, ?_, hwhole 1, hwhole 2, ⟨.lt, rfl⟩⟩
    · exact List.forall_mem_cons.2 ⟨hwhole 3, List.forall_mem_singleton.2 (hwhole 7)⟩
    · exact List.forall_mem_cons.2 ⟨hwhole 2, List.forall_mem_singleton.2 (hwhole 9)⟩
  obtain ⟨queries, answer, lastKey, itemKey, after, hresult, hanswer, hlast, hitem, hafter, hiff, -⟩ :=
    continueAfter_selects_iff (f := byNumbers) rfl rfl hsortable .atStart
  refine ⟨hsortable, queries, answer, lastKey, itemKey, after, hresult, hanswer, hlast, hitem, hafter, hiff.trans ?_⟩
  exact or_congr_right (and_iff_right rfl)

/-- An item with two numbers is selected for the page after itself. -/
theorem continueAfter_selects_itself :
    ∃ queries key,
      (byNumbers.continueAfter "id" (numbered 1 [1, 5])).result =
        .ok { byNumbers with statements := statementsOf [queries] } ∧
      (Registry.standard .atStart).matchesStatement (queries.map .query) (numbered 1 [1, 5]) = .ok true ∧
      RankKey.of byNumbers "id" (numbered 1 [1, 5]) = .ok key ∧ RankKey.before .asc key key = .ok false :=
  ⟨_, _, rfl, rfl, rfl, rfl⟩

end Filter

end Winnow
