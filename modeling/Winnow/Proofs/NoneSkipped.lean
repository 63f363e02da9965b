import Winnow.Proofs.SortRules
import Winnow.Proofs.ValueOrder

/-!
# No item is left out

An item that ranks after the last one of a page is selected for the next page, whatever number of values either has and
whether they are values of a field or of one element of a collection (`Filter.continueAfter_selects_of_before`). One
thing can come in between: where identifiers decide, and one of them is a date whose offset leads out of the calendar,
ranking compares the two as they are, while a condition first takes both to universal time, which is a fault.
-/

namespace Winnow

/-! ## Identifiers -/

namespace Kind

variable {v w : Value}

/-- Two single values that are ranked one before the other are of one kind and in the order of their marks, unless they
are dates of which one is beyond the calendar. -/
theorem exists_read_of_rankOf (hv : v.IsSingle) {d : Direction} (h : (rankOf v w).map d.orient = .ok .lt) :
    (∃ (k : Kind) (a b : k.Mark), k.read v = some a ∧ k.read w = some b ∧ d.ranked a < d.ranked b) ∨
      (v.isTemporal = true ∧ w.isTemporal = true ∧ (v.IsBeyond ∨ w.IsBeyond)) := by
  obtain ⟨o, horder, horient⟩ : ∃ o, v.order w = .ok (some o) ∧ d.orient o = .lt := by
    rw [rankOf, orderOf] at h
    cases horder : v.order w with
    | error fault =>
      rw [horder] at h
      cases h
    | ok order =>
      rw [horder] at h
      have hlt : d.orient (order.getD .eq) = .lt := Except.ok.inj h
      cases order with
      | none => cases d <;> cases hlt
      | some o => exact ⟨o, rfl, hlt⟩
  rcases exists_read_of_orderScalar ((hv.order w).symm.trans horder) with ⟨k, a, b, ha, hb⟩ | hbeyond
  · refine .inl ⟨k, a, b, ha, hb, Direction.orient_compare_eq_lt.1 ?_⟩
    rwa [← orderOf_eq ha hb (by rw [orderOf, horder]; rfl)]
  · exact .inr hbeyond

end Kind

/-- An answer that is yes, unless one of two values is a date beyond the calendar and that is the fault. -/
def HoldsWithin (p q : Value) (answer : Except Fault Bool) : Prop :=
  answer = .ok true ∨ answer = .error .outOfCalendar ∧ (p.IsBeyond ∨ q.IsBeyond)

/-- A date stands for an instant, or it is a fault to ask for one. -/
theorem Value.toInstant_of_isTemporal {v : Value} (h : v.isTemporal = true) :
    (∃ i, v.toInstant = .ok (some i)) ∨ v.toInstant = .error .outOfCalendar := by
  have hmoment (t : DateTime) : (∃ i, t.toInstant.map some = .ok (some i)) ∨
      t.toInstant.map some = .error .outOfCalendar := by
    unfold DateTime.toInstant
    cases t.toInstant? with
    | some i => exact .inl ⟨i, rfl⟩
    | none => exact .inr rfl
  cases v with
  | date d => exact hmoment (.ofDate d)
  | datetime t => exact hmoment t
  | _ => cases h

theorem Value.IsBeyond.toInstant {v : Value} (h : v.IsBeyond) : v.toInstant = .error .outOfCalendar := by
  cases v with
  | datetime t =>
    have hnone : t.toInstant? = none := h
    rw [Value.toInstant, DateTime.toInstant, hnone]
    rfl
  | _ => exact absurd h id

/-- A date that is compared with another, one of them beyond the calendar, is a fault. -/
theorem Comparable.of_beyond {v w : Value} (hv : v.isTemporal = true) (h : v.IsBeyond ∨ w.IsBeyond) :
    Comparable.of v w = .error .outOfCalendar := by
  rw [Comparable.of, hv, Bool.true_or, if_pos rfl]
  rcases Value.toInstant_of_isTemporal hv with ⟨i, hi⟩ | hfault
  · rcases h with h | h
    · rw [h.toInstant]
      rfl
    · rw [hi, h.toInstant]
      rfl
  · rw [hfault]
    rfl

section TieBreak

variable {d : Direction} {item lastId : Value} {idField : String}

/-- The tie break after an identifier holds of an item whose identifier ranks after it. -/
theorem holdsWithin_tieBreak (hlast : lastId.IsSingle) (hitem : (item.resolve idField).IsSingle)
    (h : (rankOf lastId (item.resolve idField)).map d.orient = .ok .lt) (clock : Clock) :
    HoldsWithin lastId (item.resolve idField)
      ((Registry.standard clock).matchesQuery [(idField, .within d.afterBound lastId)] item) := by
  rcases Kind.exists_read_of_rankOf hlast h with ⟨k, i, j, hi, hj, hlt⟩ | ⟨htemporal, htemporal', hbeyond⟩
  · refine .inl ?_
    rw [Kind.matchesQuery_tieBreak hi hj, decide_eq_true hlt]
  · refine .inr ⟨?_, hbeyond⟩
    have hlimit : RelativeDate.resolve clock d.afterBound lastId = .ok lastId := by
      cases lastId with
      | daysAgo days => cases htemporal
      | _ => rfl
    have hfault : (Registry.standard clock).evaluate (.within d.afterBound lastId) (item.resolve idField) =
        .error .outOfCalendar := by
      rw [Condition.within, Registry.evaluate_compare, hitem.elements]
      show (RelativeDate.resolve clock d.afterBound lastId >>=
        fun limit => Comparison.withinBound d.afterBound [item.resolve idField] limit) = _
      rw [hlimit, ok_bind, Comparison.withinBound, Comparable.of_beyond htemporal' hbeyond.symm]
      rfl
    rw [Registry.matchesQuery_eq, allPass, hfault]
    rfl

end TieBreak

/-! ## The alternatives of the statement -/

namespace HoldsWithin

variable {α : Type} {p q : Value} {test : α → Except Fault Bool} {a : α}

/-- An alternative that holds settles the choice, and a fault of the first one is that of the choice. -/
theorem anyPasses_cons (h : HoldsWithin p q (test a)) (rest : List α) :
    HoldsWithin p q (anyPasses test (a :: rest)) := by
  rcases h with hyes | ⟨hfault, hbeyond⟩
  · refine .inl ?_
    rw [anyPasses, hyes]
    rfl
  · refine .inr ⟨?_, hbeyond⟩
    rw [anyPasses, hfault]
    rfl

/-- After an alternative that does not hold, the others decide. -/
theorem anyPasses_cons_of_false {rest : List α} (hno : test a = .ok false)
    (h : HoldsWithin p q (anyPasses test rest)) : HoldsWithin p q (anyPasses test (a :: rest)) := by
  rw [anyPasses, hno]
  exact h

end HoldsWithin

namespace RankKey

variable {d : Direction} {k : Kind} {p q : Value}

theorem rank_of_before {key other : RankKey} (h : before d key other = .ok true) : rank d key other = .ok .lt := by
  rw [before] at h
  cases hrank : rank d key other with
  | error fault =>
    rw [hrank] at h
    cases h
  | ok order =>
    rw [hrank] at h
    rw [beq_iff_eq.1 (Except.ok.inj h)]

/-- A key with a value ranks before another by the marks of their values, or by their identifiers where these are
equal. -/
theorem ranked_of_before {v w : Value} {a b : k.Mark} (hv : k.read v = some a) (hw : k.read w = some b)
    (h : before d ⟨Kind.ranked v, p⟩ ⟨Kind.ranked w, q⟩ = .ok true) :
    d.ranked a < d.ranked b ∨ a = b ∧ (rankOf p q).map d.orient = .ok .lt := by
  have hrank := rank_of_before h
  rw [rank_of_ne_null (Kind.ne_null_of_read (Kind.rankable_of_read hv).2)
    (Kind.ne_null_of_read (Kind.rankable_of_read hw).2), rankOf, Kind.orderOf_ranked hv hw] at hrank
  have hlt : d.orient (compare a b) = .lt ↔ d.ranked a < d.ranked b := Direction.orient_compare_eq_lt
  obtain ⟨order, horder⟩ : ∃ order, compare a b = order := ⟨_, rfl⟩
  rw [horder] at hrank hlt
  cases order with
  | eq => exact .inr ⟨compare_eq_iff_eq.1 horder, hrank⟩
  | lt | gt => exact .inl (hlt.1 (Except.ok.inj hrank))

end RankKey

section Alternatives

variable {d : Direction} {k : Kind} {clock : Clock} {p q lastValue value item : Value} {lastValues values : List Value}
  {probe : Condition → Query} {missing : Query} {tieBreak : String × Condition}

open Kind

/-- The alternatives for what ranks after an item hold of every item that does, where their tie break holds of every
item whose identifier comes after. -/
theorem holdsWithin_alternatives (hprobes : k.ProbesMany clock probe missing item values)
    (hlast : k.Ranks d lastValues lastValue) (hitem : k.Ranks d values value)
    (hbefore : RankKey.before d ⟨lastValue, p⟩ ⟨value, q⟩ = .ok true)
    (htie : (rankOf p q).map d.orient = .ok .lt →
      HoldsWithin p q ((Registry.standard clock).matchesQuery [tieBreak] item)) :
    HoldsWithin p q (anyPasses (fun query => (Registry.standard clock).matchesQuery query item)
      (Paging.alternatives lastValue (probe (.within d.afterBound lastValue)) (probe (.eq lastValue)) missing
        tieBreak)) := by
  cases hlast with
  | none =>
    -- Only an item without a value ranks after one without, and then by its identifier.
    cases hitem with
    | some hv ha hleast =>
      rw [RankKey.before_null_left (ne_null_of_read (rankable_of_read ha).2)] at hbefore
      cases hbefore
    | none hempty =>
      have hmissing := hprobes.missing
      rw [hempty] at hmissing
      refine HoldsWithin.anyPasses_cons ?_ []
      rw [Registry.matchesQuery_append_of_true hmissing]
      exact htie (RankKey.rank_of_before hbefore)
  | @some u a hu ha hleast =>
    have hread := (rankable_of_read ha).2
    have hlater := hprobes.within d.afterBound hread
    have hsame := hprobes.equal hread
    rw [Paging.alternatives_of_ne_null (ne_null_of_read hread)]
    cases hitem with
    | none hempty =>
      have hmissing := hprobes.missing
      rw [hempty] at hlater hsame hmissing
      refine .anyPasses_cons_of_false hlater (.anyPasses_cons_of_false ?_ (.anyPasses_cons (.inl hmissing) []))
      exact Registry.matchesQuery_append_of_false hsame _
    | @some v b hv hb _ =>
      rcases RankKey.ranked_of_before ha hb hbefore with hlt | ⟨rfl, hid⟩
      · -- The value by which the item is ranked comes after that of the last one.
        refine .anyPasses_cons (.inl ?_) _
        rw [hlater, List.any_eq_true.2 ⟨v, hv, ?_⟩]
        rw [hb, Option.map_some, Direction.admits_afterBound, decide_eq_true hlt]
      · by_cases hsome : (values.any fun w => d.afterBound.admits ((k.read w).map fun c => compare c a)) = true
        · rw [hsome] at hlater
          refine .anyPasses_cons ?_ _
          exact .inl hlater
        · rw [Bool.eq_false_of_not_eq_true hsome] at hlater
          refine .anyPasses_cons_of_false hlater (.anyPasses_cons ?_ _)
          have hequal : (values.any fun w => (k.read w).any fun c => decide (c = a)) = true := by
            refine List.any_eq_true.2 ⟨v, hv, ?_⟩
            rw [hb, Option.any_some, decide_eq_true rfl]
          rw [hequal] at hsame
          rw [Registry.matchesQuery_append_of_true hsame]
          exact htie hid

/-- A property of one element of a collection is probed by searches for that element; its values, if there is such an
element, are those that the sort looks at. -/
theorem probesMany_element {f : Filter} {field name subProp : String} (hfield : f.sortField = .text field)
    (hnested : f.hasNestedSort = true) (hsub : f.subId = .text name) (hprop : f.subProp = .text subProp)
    (h : k.OfElement name subProp (item.resolve field)) (clock : Clock) :
    ∃ source, f.sortSource item = .ok source ∧ k.OfAll source.elements ∧
      k.ProbesMany clock (fun c => Query.single field (.find (Paging.element (.text name) subProp c)))
        (Query.single field (.nfind (Paging.element (.text name) subProp (.neq .null)))) item source.elements := by
  have hsource := sortSource_of_nested hfield hnested hsub hprop item
  have hsearch (c : Condition) : (Registry.standard clock).evaluate
      (.find (Paging.element (.text name) subProp c)) (item.resolve field) = _ :=
    (Registry.evaluate_find _ _).trans (anyPasses_element h.ids h.one c)
  have hmissing : (Registry.standard clock).evaluate
      (.nfind (Paging.element (.text name) subProp (.neq .null))) (item.resolve field) = Except.map (!·) _ :=
    (Registry.evaluate_nfind _ _).trans (congrArg (Except.map (!·)) (anyPasses_element h.ids h.one (.neq .null)))
  cases hfound : (item.resolve field).elements.find? fun element => (element.resolve "id").same (.text name) with
  | none =>
    rw [hfound] at hsource
    simp only [hfound] at hsearch hmissing
    refine ⟨.null, hsource, nofun, ?_, ?_, ?_⟩
    · exact fun bound _ _ _ => Registry.matchesQuery_single (hsearch _)
    · exact fun _ => Registry.matchesQuery_single (hsearch _)
    · exact Registry.matchesQuery_single hmissing
  | some element =>
    have hsame := List.find?_some (p := fun element : Value => (element.resolve "id").same (.text name)) hfound
    have hvalues := h.values element (List.mem_of_find?_eq_some hfound) hsame
    rw [hfound] at hsource
    simp only [hfound] at hsearch hmissing
    refine ⟨element.resolve subProp, hsource, hvalues, ?_, ?_, ?_⟩
    · intro bound w b hw
      exact Registry.matchesQuery_single ((hsearch _).trans (evaluate_within hvalues hw clock bound))
    · intro w b hw
      exact Registry.matchesQuery_single ((hsearch _).trans (evaluate_eq hvalues hw clock))
    · refine Registry.matchesQuery_single (hmissing.trans ?_)
      rw [Condition.neq, Registry.evaluate_compare]
      exact congrArg Except.ok (Bool.not_not _)

end Alternatives

/-- What a sort looks at in an item are values of a kind: those of a field, or those of a property of the one element
with the identifier of the sort. -/
structure Filter.SortsBy (f : Filter) (k : Kind) (idField : String) (item : Value) : Prop where
  plain : ∀ field, f.sortField = .text field → f.hasSort idField = true → f.hasNestedSort = false →
    k.OfAll (item.resolve field).elements
  nested : ∀ field name subProp, f.sortField = .text field → f.subId = .text name → f.subProp = .text subProp →
    f.hasSort idField = true → f.hasNestedSort = true → k.OfElement name subProp (item.resolve field)

namespace Filter

variable {f : Filter} {k : Kind} {idField : String} {last item : Value}

/-- The statement for the next page selects every item that ranks after the last one, in a sort by identifiers, by a
field or by an element, in either direction and with any number of values; only where identifiers decide and one of them
is a date beyond the calendar is there a fault instead. -/
theorem continueAfter_selects_of_before (hfield : f.sortField.IsSortName) (hsub : f.subId.IsSortName)
    (hprop : f.subProp.IsSortName) (hlast : f.SortsBy k idField last) (hitem : f.SortsBy k idField item)
    (hlastId : (last.resolve idField).IsSingle) (hitemId : (item.resolve idField).IsSingle) (clock : Clock) :
    ∃ queries lastKey itemKey,
      (f.continueAfter idField last).result = .ok { f with statements := f.statements ++ statementsOf [queries] } ∧
      RankKey.of f idField last = .ok lastKey ∧ RankKey.of f idField item = .ok itemKey ∧
      (RankKey.before f.direction lastKey itemKey = .ok true →
        (Registry.standard clock).matchesStatement (queries.map .query) item = .ok true ∨
        (Registry.standard clock).matchesStatement (queries.map .query) item = .error .outOfCalendar ∧
          ((last.resolve idField).IsBeyond ∨ (item.resolve idField).IsBeyond)) := by
  have htie := fun h => holdsWithin_tieBreak (d := f.direction) hlastId hitemId h clock
  have hid := hlastId.ne_null
  simp only [Registry.matchesStatement_map]
  cases hsort : f.hasSort idField with
  | false =>
    have hunsorted : ¬f.hasSort idField = true := by rw [hsort]; exact nofun
    have hnull : ∀ item, f.sortValue idField item = .ok .null := fun item => by rw [sortValue, if_neg hunsorted]
    refine ⟨_, _, _, result_continueAfter rfl hid (afterItem_unsorted hunsorted _), rankKey_of_sortValue (hnull last),
      rankKey_of_sortValue (hnull item), fun hbefore => ?_⟩
    exact HoldsWithin.anyPasses_cons (htie (RankKey.rank_of_before hbefore)) []
  | true =>
    obtain ⟨field, hname⟩ := hfield.exists_text (Bool.and_eq_true_iff.1 hsort).1
    cases hnested : f.hasNestedSort with
    | false =>
      have hitemValues := hitem.plain field hname hsort hnested
      obtain ⟨lastValue, hlastValue, hlastRanks⟩ :=
        Kind.sortValue_of_ofAll hname hnested hsort (hlast.plain field hname hsort hnested)
      obtain ⟨value, hvalue, hranks⟩ := Kind.sortValue_of_ofAll hname hnested hsort hitemValues
      refine ⟨_, _, _, result_continueAfter rfl hid (afterItem_of_sortValue hname hnested hsort hlastValue _),
        rankKey_of_sortValue hlastValue, rankKey_of_sortValue hvalue, fun hbefore => ?_⟩
      exact holdsWithin_alternatives (Kind.probesMany_field hitemValues clock) hlastRanks hranks hbefore htie
    | true =>
      obtain ⟨name, hsubName⟩ := hsub.exists_text (Bool.and_eq_true_iff.1 hnested).1
      obtain ⟨subProp, hpropName⟩ := hprop.exists_text (Bool.and_eq_true_iff.1 hnested).2
      obtain ⟨lastSource, hlastSource, hlastValues, -⟩ := probesMany_element hname hnested hsubName hpropName
        (hlast.nested field name subProp hname hsubName hpropName hsort hnested) clock
      obtain ⟨source, hsource, hvalues, hprobes⟩ := probesMany_element hname hnested hsubName hpropName
        (hitem.nested field name subProp hname hsubName hpropName hsort hnested) clock
      obtain ⟨lastValue, hlastValue, hlastRanks⟩ := Kind.sortValue_of_source hsort hlastSource hlastValues
      obtain ⟨value, hvalue, hranks⟩ := Kind.sortValue_of_source hsort hsource hvalues
      refine ⟨_, _, _, result_continueAfter rfl hid (afterItem_byElement hname hpropName hnested hsort hlastValue _),
        rankKey_of_sortValue hlastValue, rankKey_of_sortValue hvalue, fun hbefore => ?_⟩
      rw [hsubName]
      exact holdsWithin_alternatives hprobes hlastRanks hranks hbefore htie

/-- A visitor of the laboratory on the ninth, after an earlier visit. -/
def onNinth : Value :=
  visitor 2 [(.text "lab", [third, ninth])]

/-- A visitor of the laboratory on the ninth too, and of a numbered room later on. -/
def onNinthToo : Value :=
  visitor 1 [(.int 4, [tenthAhead]), (.text "lab", [ninth, third, ninth])]

/-- Of two visitors with the same last day in the laboratory, the one that ranks after the other by its identifier is
selected after it. -/
theorem continueAfter_selects_of_before_onNinth :
    byLabDays.SortsBy .moment "id" onNinth ∧ byLabDays.SortsBy .moment "id" onNinthToo ∧
      ∃ queries lastKey itemKey,
        (byLabDays.continueAfter "id" onNinth).result = .ok { byLabDays with statements := statementsOf [queries] } ∧
        RankKey.of byLabDays "id" onNinth = .ok lastKey ∧ RankKey.of byLabDays "id" onNinthToo = .ok itemKey ∧
        RankKey.before .desc lastKey itemKey = .ok true ∧
        (Registry.standard .atStart).matchesStatement (queries.map .query) onNinthToo = .ok true := by
  have hthird : ∃ a, Kind.moment.read third = some a := Option.isSome_iff_exists.1 (by decide +kernel)
  have hninth : ∃ a, Kind.moment.read ninth = some a := Option.isSome_iff_exists.1 (by decide +kernel)
  have htenth : ∃ a, Kind.moment.read tenthAhead = some a := Option.isSome_iff_exists.1 (by decide +kernel)
  have hlast : byLabDays.SortsBy .moment "id" onNinth := by
    refine ⟨(fun _ _ _ hplain => by cases hplain), ?_⟩
    rintro _ _ _ ⟨⟩ ⟨⟩ ⟨⟩ - -
    exact ofElement_visits 2 (by simp [Kind.OfAll, Value.IsElementId, hthird, hninth]) (by decide +kernel)
  have hitem : byLabDays.SortsBy .moment "id" onNinthToo := by
    refine ⟨(fun _ _ _ hplain => by cases hplain), ?_⟩
    rintro _ _ _ ⟨⟩ ⟨⟩ ⟨⟩ - -
    exact ofElement_visits 1 (by simp [Kind.OfAll, Value.IsElementId, hthird, hninth, htenth]) (by decide +kernel)
  have hranked : ((RankKey.of byLabDays "id" onNinth).bind fun key =>
      (RankKey.of byLabDays "id" onNinthToo).bind fun other => RankKey.before .desc key other) = .ok true := rfl
  obtain ⟨queries, lastKey, itemKey, hresult, hlastKey, hitemKey, hselects⟩ :=
    continueAfter_selects_of_before (f := byLabDays) trivial trivial trivial hlast hitem trivial trivial .atStart
  rw [hlastKey, hitemKey] at hranked
  refine ⟨hlast, hitem, queries, lastKey, itemKey, hresult, hlastKey, hitemKey, hranked, ?_⟩
  rcases hselects hranked with hyes | ⟨-, hbeyond⟩
  · exact hyes
  · exact (hbeyond.elim id id).elim

/-- A zone half an hour ahead of universal time. -/
def halfHourAhead : Offset :=
  { micros := 1800000000 }

/-- An item that is known by a time of the first day in the zone, some microseconds after midnight. -/
def knownByTime (micros : Nat) : Value :=
  .object [("id", .datetime ⟨.first, .ofMicros micros, some halfHourAhead⟩)]

/-- The second item ranks after the first one, which is known by a time that is not in the calendar of universal time;
to ask whether it is selected is a fault. -/
theorem continueAfter_selects_beyond :
    ∃ queries lastKey itemKey,
      (continueAfter {} "id" (knownByTime 0)).result = .ok { statements := statementsOf [queries] } ∧
      RankKey.of {} "id" (knownByTime 0) = .ok lastKey ∧ RankKey.of {} "id" (knownByTime 7200000000) = .ok itemKey ∧
      RankKey.before .asc lastKey itemKey = .ok true ∧
      (Registry.standard .atStart).matchesStatement (queries.map .query) (knownByTime 7200000000) =
        .error .outOfCalendar :=
  ⟨_, _, _, rfl, rfl, rfl, rfl, rfl⟩

end Filter

end Winnow
