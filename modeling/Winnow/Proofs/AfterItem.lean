import Winnow.Paging
import Winnow.Proofs.Matching
import Winnow.Proofs.Ranking

/-!
# What comes after an item

Statements about the queries of `Filter.afterItem`: one of them holds of an item exactly when the key of the item comes
after that of the last one (`anyPasses_alternatives`). Their conditions probe an item for its sort value, in a field of
its own or in a property of one element of a collection (`Probes`).
-/

namespace Winnow

/-- What ranks after a mark is within the bound of a direction. -/
theorem Direction.admits_afterBound {d : Direction} {α : Type} [LinearOrder α] {a b : α} :
    d.afterBound.admits (some (compare a b)) = decide (d.ranked b < d.ranked a) := by
  cases d with
  | asc =>
    show Bound.gt.admits (some (compare a b)) = decide (b < a)
    rcases lt_trichotomy a b with h | h | h
    · rw [compare_lt_iff_lt.2 h, decide_eq_false (lt_asymm h)]
      rfl
    · rw [compare_eq_iff_eq.2 h, decide_eq_false (le_of_eq h).not_gt]
      rfl
    · rw [compare_gt_iff_gt.2 h, decide_eq_true h]
      rfl
  | desc =>
    show Bound.lt.admits (some (compare a b)) = decide (a < b)
    rcases lt_trichotomy a b with h | h | h
    · rw [compare_lt_iff_lt.2 h, decide_eq_true h]
      rfl
    · rw [compare_eq_iff_eq.2 h, decide_eq_false (ge_of_eq h).not_gt]
      rfl
    · rw [compare_gt_iff_gt.2 h, decide_eq_false (lt_asymm h)]
      rfl

/-- Conditions probe an item for a sort value: with a bound or equality, for one that meets it, and for none at all. -/
structure Probes (clock : Clock) (marks : Scale) (probe : Condition → Query) (missing : Query) (item : Value)
    (m : Option marks.Mark) : Prop where
  within (bound : Bound) (b : marks.Mark) :
    (Registry.standard clock).matchesQuery (probe (.within bound (marks.form b))) item =
      .ok (m.any fun a => bound.admits (some (compare a b)))
  equal (b : marks.Mark) :
    (Registry.standard clock).matchesQuery (probe (.eq (marks.form b))) item = .ok (m.any fun a => decide (a = b))
  missing :
    (Registry.standard clock).matchesQuery missing item = .ok m.isNone

namespace Registry

variable {clock : Clock}

/-- A query of one condition holds when the condition does. -/
theorem matchesQuery_single {field : String} {c : Condition} {item : Value} {b : Bool}
    (h : (standard clock).evaluate c (item.resolve field) = .ok b) :
    (standard clock).matchesQuery (Query.single field c) item = .ok b :=
  (matchesQuery_single_eq _ _ _ _).trans h

/-- A query with another behind it holds when both do. -/
theorem matchesQuery_append {q r : Query} {item : Value} {b c : Bool}
    (hq : (standard clock).matchesQuery q item = .ok b) (hr : (standard clock).matchesQuery r item = .ok c) :
    (standard clock).matchesQuery (q ++ r) item = .ok (b && c) := by
  rw [matchesQuery_eq] at hq hr ⊢
  exact allPass_append hq hr

/-- After a query that holds, the one behind it decides. -/
theorem matchesQuery_append_of_true {q : Query} {item : Value} (hq : (standard clock).matchesQuery q item = .ok true)
    (r : Query) : (standard clock).matchesQuery (q ++ r) item = (standard clock).matchesQuery r item := by
  rw [matchesQuery_eq] at hq ⊢
  rw [allPass_append_eq, hq, matchesQuery_eq]
  rfl

/-- After a query that does not hold, the one behind it is not asked. -/
theorem matchesQuery_append_of_false {q : Query} {item : Value} (hq : (standard clock).matchesQuery q item = .ok false)
    (r : Query) : (standard clock).matchesQuery (q ++ r) item = .ok false := by
  rw [matchesQuery_eq] at hq ⊢
  rw [allPass_append_eq, hq]
  rfl

end Registry

/-- The form of a mark holds that mark. -/
theorem Scale.holds_form (s : Scale) (a : s.Mark) : s.Holds (s.form a) (some a) := by
  have helements : (s.form a).elements = [s.form a] := by cases s <;> rfl
  rw [Holds, helements]
  exact congrArg (fun m => [m]) (s.read_form a)

theorem Scale.Holds.isEmpty {s : Scale} {v : Value} {m : Option s.Mark} (h : s.Holds v m) :
    v.elements.isEmpty = m.isNone := by
  cases m with
  | none =>
    rw [List.map_eq_nil_iff.1 h]
    rfl
  | some a =>
    obtain ⟨w, rest, hcons, -⟩ := List.map_eq_cons_iff.1 h
    rw [hcons]
    rfl

/-- A value that holds a mark is compared with a mark as its own mark is. -/
theorem Scale.Holds.evaluate_within {s : Scale} {v : Value} {m : Option s.Mark} (h : s.Holds v m) (clock : Clock)
    (bound : Bound) (b : s.Mark) : (Registry.standard clock).evaluate (.within bound (s.form b)) v =
      .ok (m.any fun a => bound.admits (some (compare a b))) := by
  rw [Condition.within, Registry.evaluate_compare, holds_bound_form clock h]
  cases m with
  | none => rfl
  | some a => simp

theorem Scale.Holds.evaluate_eq {s : Scale} {v : Value} {m : Option s.Mark} (h : s.Holds v m) (clock : Clock)
    (b : s.Mark) : (Registry.standard clock).evaluate (.eq (s.form b)) v = .ok (m.any fun a => decide (a = b)) := by
  rw [Condition.eq, Registry.evaluate_compare, holds_eq_form clock h]
  cases m with
  | none => rfl
  | some a => simp

/-- A field of its own is probed by conditions on it. -/
theorem probes_field {clock : Clock} {marks : Scale} {field : String} {item : Value} {m : Option marks.Mark}
    (hm : marks.Holds (item.resolve field) m) :
    Probes clock marks (Query.single field) (Query.single field (.eq .null)) item m where
  within bound b := Registry.matchesQuery_single (hm.evaluate_within clock bound b)
  equal b := Registry.matchesQuery_single (hm.evaluate_eq clock b)
  missing := by
    refine Registry.matchesQuery_single ?_
    rw [Condition.eq, Registry.evaluate_compare, ← hm.isEmpty]
    rfl

/-! ## Properties of one element -/

theorem Value.resolve_null (path : String) : Value.null.resolve path = .null := by
  rw [resolve]
  cases Path.parts path <;> rfl

/-- Whether a value can be the identifier of an element: a whole number, a text or none. -/
def Value.IsElementId : Value → Prop
  | .null | .int _ | .text _ => True
  | _ => False

/-- A collection with at most one element of an identifier, and that with at most one mark in a property. -/
structure HasOneElement (marks : Scale) (subId : Value) (subProp : String) (collection : Value) : Prop where
  ids : ∀ element ∈ collection.elements, (element.resolve "id").IsElementId
  one : (collection.elements.filter fun element => (element.resolve "id").same subId).length ≤ 1
  value : ∀ element ∈ collection.elements, (element.resolve "id").same subId = true →
    ∃ m, marks.Holds (element.resolve subProp) m

/-- An identifier equals a text when they are the same. -/
theorem holds_eq_elementId (clock : Clock) {v : Value} (hv : v.IsElementId) (name : String) :
    Comparison.eq.holds clock v.elements (.text name) = .ok (v.same (.text name)) := by
  cases v with
  | null => rfl
  | int n => rfl
  | text t =>
    have hmark : [Value.text t].map Scale.text.read = [t].map some := rfl
    show Comparison.contains [.text t] (Scale.text.form name) = .ok (t == name)
    rw [Scale.contains_form hmark name, beq_eq_decide]
    exact congrArg Except.ok (Bool.or_false _)
  | _ => exact absurd hv id

/-- A test for equality with a text is never refused. -/
theorem Value.same?_text (v : Value) (name : String) : v.same? (.text name) = some (v.same (.text name)) := by
  have hcalm : v.signals (.text name) = false := by
    cases v <;> rfl
  rw [Value.same?, hcalm]
  rfl

section Element

variable {clock : Clock} {marks : Scale} {name subProp : String}

/-- A query on one element asks for its identifier first, and then for its property. -/
theorem matchesQuery_element {element : Value} (hid : (element.resolve "id").IsElementId) (c : Condition) :
    (Registry.standard clock).matchesQuery (Paging.element (.text name) subProp c) element =
      if (element.resolve "id").same (.text name) then (Registry.standard clock).evaluate c (element.resolve subProp)
      else .ok false := by
  have heq : (Registry.standard clock).evaluate (.eq (.text name)) (element.resolve "id") =
      .ok ((element.resolve "id").same (.text name)) := by
    rw [Condition.eq, Registry.evaluate_compare, holds_eq_elementId clock hid]
  rw [Registry.matchesQuery_eq]
  show allPass _ [("id", .eq (.text name)), (subProp, c)] = _
  rw [allPass, heq, ok_bind, allPass_singleton]
  rfl

/-- The element of a sort is the first with its identifier. -/
theorem sortElement?_eq {f : Filter} (hsub : f.subId = .text name) (elements : List Value) :
    f.sortElement? elements = .ok (elements.find? fun element => (element.resolve "id").same (.text name)) := by
  induction elements with
  | nil => rfl
  | cons element rest ih =>
    rw [Filter.sortElement?, hsub, Value.same?_text, List.find?_cons, ih]
    show (if (element.resolve "id").same (.text name) = true then _ else _) = _
    split
    · next h => rw [h]; rfl
    · next h => rw [Bool.eq_false_of_not_eq_true h]

/-- A sort by a property of an element looks at that property of the first element with the identifier. -/
theorem sortSource_of_nested {f : Filter} {field : String} (hfield : f.sortField = .text field)
    (hnested : f.hasNestedSort = true) (hsub : f.subId = .text name) (hprop : f.subProp = .text subProp)
    (item : Value) :
    f.sortSource item =
      match (item.resolve field).elements.find? fun element => (element.resolve "id").same (.text name) with
      | some element => .ok (element.resolve subProp)
      | none => .ok .null := by
  rw [Filter.sortSource, hfield]
  show (if f.hasNestedSort = true then _ else _) = _
  rw [if_pos hnested, sortElement?_eq hsub, hprop]
  cases (item.resolve field).elements.find? fun element => (element.resolve "id").same (.text name) <;> rfl

/-- Where no element has the identifier, none is found. -/
theorem anyPasses_element_eq_false {elements : List Value}
    (hids : ∀ element ∈ elements, (element.resolve "id").IsElementId)
    (hnone : ∀ element ∈ elements, (element.resolve "id").same (.text name) = false) (c : Condition) :
    anyPasses (fun element => (Registry.standard clock).matchesQuery (Paging.element (.text name) subProp c) element)
      elements = .ok false := by
  have htest : ∀ element ∈ elements,
      (Registry.standard clock).matchesQuery (Paging.element (.text name) subProp c) element = .ok false := by
    intro element helement
    rw [matchesQuery_element (hids element helement), hnone element helement]
    rfl
  rw [anyPasses_of_ok htest]
  simp

/-- A search for the one element with an identifier asks for its property. -/
theorem anyPasses_element {elements : List Value}
    (hids : ∀ element ∈ elements, (element.resolve "id").IsElementId)
    (hone : (elements.filter fun element => (element.resolve "id").same (.text name)).length ≤ 1) (c : Condition) :
    anyPasses (fun element => (Registry.standard clock).matchesQuery (Paging.element (.text name) subProp c) element)
      elements =
      match elements.find? fun element => (element.resolve "id").same (.text name) with
      | some element => (Registry.standard clock).evaluate c (element.resolve subProp)
      | none => .ok false := by
  induction elements with
  | nil => rfl
  | cons element rest ih =>
    have hidsRest : ∀ e ∈ rest, (e.resolve "id").IsElementId := fun e he => hids e (.tail _ he)
    rw [anyPasses, matchesQuery_element (hids element (.head _)), List.find?_cons]
    rw [List.filter_cons] at hone
    cases hsame : (element.resolve "id").same (.text name) with
    | false =>
      rw [hsame] at hone
      exact ih hidsRest hone
    | true =>
      rw [hsame] at hone
      have hrest : ∀ e ∈ rest, (e.resolve "id").same (.text name) = false := by
        have hnil : (rest.filter fun e => (e.resolve "id").same (.text name)) = [] :=
          List.eq_nil_of_length_eq_zero (Nat.le_zero.1 (Nat.le_of_succ_le_succ hone))
        intro e he
        exact Bool.eq_false_of_not_eq_true (List.filter_eq_nil_iff.1 hnil e he)
      rw [anyPasses_element_eq_false hidsRest hrest]
      show ((Registry.standard clock).evaluate c (element.resolve subProp) >>= fun found =>
        if found = true then pure true else .ok false) = (Registry.standard clock).evaluate c (element.resolve subProp)
      cases (Registry.standard clock).evaluate c (element.resolve subProp) with
      | error fault => rfl
      | ok answer => cases answer <;> rfl

/-- A property of one element of a collection is probed by searches for that element; what the element holds in the
property, if there is one, is what the sort looks at. -/
theorem probes_element {f : Filter} {field : String} {item : Value} (hsub : f.subId = .text name)
    (hprop : f.subProp = .text subProp) (hfield : f.sortField = .text field) (hnested : f.hasNestedSort = true)
    (h : HasOneElement marks (.text name) subProp (item.resolve field)) :
    ∃ source m, f.sortSource item = .ok source ∧ marks.Holds source m ∧
      Probes clock marks (fun c => Query.single field (.find (Paging.element (.text name) subProp c)))
        (Query.single field (.nfind (Paging.element (.text name) subProp (.neq .null)))) item m := by
  have hsearch (c : Condition) : (Registry.standard clock).evaluate
      (.find (Paging.element (.text name) subProp c)) (item.resolve field) = _ :=
    (Registry.evaluate_find _ _).trans (anyPasses_element h.ids h.one c)
  have hmissing : (Registry.standard clock).evaluate
      (.nfind (Paging.element (.text name) subProp (.neq .null))) (item.resolve field) = Except.map (!·) _ :=
    (Registry.evaluate_nfind _ _).trans (congrArg (Except.map (!·)) (anyPasses_element h.ids h.one (.neq .null)))
  have hsource := sortSource_of_nested hfield hnested hsub hprop item
  cases hfound : (item.resolve field).elements.find? fun element => (element.resolve "id").same (.text name) with
  | none =>
    rw [hfound] at hsource
    simp only [hfound] at hsearch hmissing
    refine ⟨.null, none, hsource, rfl, ?_, ?_, ?_⟩
    · exact fun bound b => Registry.matchesQuery_single (hsearch _)
    · exact fun b => Registry.matchesQuery_single (hsearch _)
    · exact Registry.matchesQuery_single hmissing
  | some element =>
    have hsame := List.find?_some (p := fun element : Value => (element.resolve "id").same (.text name)) hfound
    obtain ⟨m, hm⟩ := h.value element (List.mem_of_find?_eq_some hfound) hsame
    rw [hfound] at hsource
    simp only [hfound] at hsearch hmissing
    refine ⟨element.resolve subProp, m, hsource, hm, ?_, ?_, ?_⟩
    · exact fun bound b => Registry.matchesQuery_single ((hsearch _).trans (hm.evaluate_within clock bound b))
    · exact fun b => Registry.matchesQuery_single ((hsearch _).trans (hm.evaluate_eq clock b))
    · refine Registry.matchesQuery_single (hmissing.trans ?_)
      rw [Condition.neq, Registry.evaluate_compare, ← hm.isEmpty]
      exact congrArg Except.ok (Bool.not_not _)

end Element

/-! ## The statement for the next page -/

theorem Paging.alternatives_of_ne_null {value : Value} (h : value ≠ .null) (later same missing : Query)
    (tieBreak : String × Condition) :
    alternatives value later same missing tieBreak = [later, same ++ [tieBreak], missing] := by
  cases value with
  | null => exact absurd rfl h
  | _ => rfl

section Statement

variable {clock : Clock} {d : Direction} {marks ids : Scale}

/-- The tie break after an identifier holds of the identifiers that come after it. -/
theorem evaluate_tieBreak {idField : String} {item : Value} {j : ids.Mark} (hitem : item.resolve idField = ids.form j)
    (i : ids.Mark) :
    (Registry.standard clock).evaluate (.within d.afterBound (ids.form i)) (item.resolve idField) =
      .ok (decide (d.ranked i < d.ranked j)) := by
  rw [hitem, (Scale.holds_form ids j).evaluate_within, Option.any_some, Direction.admits_afterBound]

/-- The alternatives after an item hold of the items whose keys come after that of the item. -/
theorem anyPasses_alternatives {probe : Condition → Query} {missing : Query} {item : Value} {n : Option marks.Mark}
    (hprobes : Probes clock marks probe missing item n) {tieBreak : String × Condition} {i j : ids.Mark}
    (htie : (Registry.standard clock).evaluate tieBreak.2 (item.resolve tieBreak.1) =
      .ok (decide (d.ranked i < d.ranked j))) (m : Option marks.Mark) :
    anyPasses (fun q => (Registry.standard clock).matchesQuery q item)
      (Paging.alternatives (marks.formOf m) (probe (.within d.afterBound (marks.formOf m)))
        (probe (.eq (marks.formOf m))) missing tieBreak) = .ok (decide (keyOf d m i < keyOf d n j)) := by
  have htieQuery : (Registry.standard clock).matchesQuery [tieBreak] item = .ok (decide (d.ranked i < d.ranked j)) := by
    rw [Registry.matchesQuery_eq]
    exact (allPass_singleton _ _).trans htie
  cases m with
  | none =>
    refine (Registry.anyPasses_query_cons (Registry.matchesQuery_append hprobes.missing htieQuery) rfl).trans ?_
    cases n with
    | none => simp [keyOf_none_lt_none]
    | some a => simp [not_keyOf_none_lt_some]
  | some b =>
    show anyPasses _ (Paging.alternatives (marks.form b) (probe (.within d.afterBound (marks.form b)))
      (probe (.eq (marks.form b))) missing tieBreak) = _
    rw [Paging.alternatives_of_ne_null (marks.form_ne_null b)]
    refine (Registry.anyPasses_query_cons (hprobes.within _ b) (Registry.anyPasses_query_cons
      (Registry.matchesQuery_append (hprobes.equal b) htieQuery)
      (Registry.anyPasses_query_cons hprobes.missing rfl))).trans ?_
    cases n with
    | none => simp [keyOf_some_lt_none]
    | some a => simp [keyOf_some_lt_some, Direction.admits_afterBound, eq_comm]

end Statement

end Winnow
