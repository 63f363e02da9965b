import Winnow.Proofs.SortRules

/-!
# Names inside a collection

A sort by a property of one element of a collection, and the statement for what ranks after an item in that sort, look
for the same element. They come to the indexed names of its fields on two routes: the sort asks for the path of each
field, the statement for each field under the name that the collection has been given. So they agree on the collection,
and on a field exactly when the map has one name for both paths (`Translator.build_continueAfter_byElement`).
-/

namespace Winnow

/-- The indexed names that are read in the elements of a collection: its path, the identifier of an element, and a
property of it. -/
structure ElementNames where
  path : String
  id : String
  property : String

namespace ElementNames

variable {m : FieldMap} {field subProp : String}

/-- The names that a sort asks for: each path has a name of its own. -/
def ofSort (m : FieldMap) (field subProp : String) : ElementNames :=
  ⟨m.nameOf field, m.nameOf (Path.join field "id"), m.nameOf (Path.join field subProp)⟩

/-- The names that a query asks for: the fields of an element are inside the name of the collection. -/
def ofQuery (m : FieldMap) (field subProp : String) : ElementNames :=
  ⟨m.nameOf field, m.nameOf (Path.join (m.nameOf field) "id"), m.nameOf (Path.join (m.nameOf field) subProp)⟩

/-- The two routes agree when the map has one name for a path and for the field under the name of the collection. -/
theorem ofQuery_eq_ofSort_iff : ofQuery m field subProp = ofSort m field subProp ↔
    m.nameOf (Path.join (m.nameOf field) "id") = m.nameOf (Path.join field "id") ∧
      m.nameOf (Path.join (m.nameOf field) subProp) = m.nameOf (Path.join field subProp) := by
  rw [ofQuery, ofSort, ElementNames.mk.injEq]
  exact and_iff_right rfl

/-- A collection that keeps its name has one name for each of its fields. -/
theorem ofQuery_eq_ofSort (h : m.nameOf field = field) : ofQuery m field subProp = ofSort m field subProp := by
  rw [ofQuery_eq_ofSort_iff, h]
  exact ⟨rfl, rfl⟩

/-- The clause for an element with an identifier and with a property that meets a clause. -/
def clause (n : ElementNames) (subId : Value) (property : String → Clause) : Clause :=
  .nested n.path { filter := some [.term n.id subId.searchable, property n.property] }

/-- The clause for what ranks after an item with a value: a value that is within the bound on the value as it is written
for a range, the same value and what breaks the tie, or no value. -/
def afterClause (n : ElementNames) (subId value limit : Value) (bound : Bound) (tieBreak : Clause) : Clause :=
  .anyOf [
    .bool (.must (n.clause subId fun name => .range name bound limit)),
    .bool { filter := some [n.clause subId fun name => .term name value.searchable, tieBreak] },
    .bool (.exclude (n.clause subId .present))]

/-- The clause of a sort by the property. -/
def sortClause (n : ElementNames) (style : NestedSortStyle) (direction : Direction) (missing : String)
    (subId : Value) : SortClause :=
  .byElement style n.property direction missing n.path n.id subId.searchable

end ElementNames

/-! ## The clause of the statement -/

section Fragments

variable {m : FieldMap} {field subProp : String} {subId value limit : Value} {bound : Bound}
  {tieBreak : String × Condition}

theorem Comparison.fragment_eq_of_ne_null (h : value ≠ .null) (name : String) :
    Comparison.eq.fragment name value = .must (.term name value.searchable) := by
  cases value with
  | null => exact absurd rfl h
  | _ => rfl

/-- A query on one element asks for its identifier and for its property, inside the name of the collection. -/
theorem fragment_element (hfield : field ≠ "") (hsub : subId ≠ .null) {c : Condition} {property : String → Clause}
    (hc : ∀ name, c.fragment m name = .must (property name)) :
    Clause.nested (m.nameOf field) (Query.fragment m (m.nameOf field) (Paging.element subId subProp c)) =
      (ElementNames.ofQuery m field subProp).clause subId property := by
  have hinside := Path.inside_eq_join (FieldMap.nameOf_ne_empty (m := m) hfield)
  have hid (name : String) : (Condition.eq subId).fragment m name = .must (.term name subId.searchable) :=
    Comparison.fragment_eq_of_ne_null hsub name
  rw [Query.fragment, Paging.element, Query.require, Query.single, List.singleton_append, List.map_cons, List.map_cons,
    hid, hc, hinside, hinside]
  rfl

/-- The statement for what ranks after an item with a value is translated to the clause under the names that queries
ask for. -/
theorem statementOf_byElement (hfield : field ≠ "") (hsub : subId ≠ .null) (hvalue : value ≠ .null)
    (hlimit : ∀ name, (Comparison.bound bound).fragment name value = .must (.range name bound limit))
    {tieClause : Clause} (htie : tieBreak.2.fragment m (m.nameOf tieBreak.1) = .must tieClause) :
    Translator.statementOf m (Paging.byElement field subId subProp value bound tieBreak) =
      (ElementNames.ofQuery m field subProp).afterClause subId value limit bound tieClause := by
  have hlater : Clause.nested (m.nameOf field)
      (Query.fragment m (m.nameOf field) (Paging.element subId subProp (.within bound value))) = _ :=
    fragment_element hfield hsub hlimit
  have hsame : Clause.nested (m.nameOf field)
      (Query.fragment m (m.nameOf field) (Paging.element subId subProp (.eq value))) = _ :=
    fragment_element hfield hsub fun name => Comparison.fragment_eq_of_ne_null hvalue name
  have hpresent : Clause.nested (m.nameOf field)
      (Query.fragment m (m.nameOf field) (Paging.element subId subProp (.neq .null))) = _ :=
    fragment_element hfield hsub fun name => rfl
  have hname (name : String) : Path.inside "" name = name := rfl
  rw [Paging.byElement, Paging.alternatives_of_ne_null hvalue, Translator.statementOf]
  simp only [List.map_cons, List.map_nil, Query.fragment, Query.single, List.singleton_append, hname, htie]
  rw [Condition.find, Condition.find, Condition.nfind, Condition.fragment_find, Condition.fragment_find,
    Condition.fragment_nfind, hlater, hsame, hpresent]
  rfl

/-- The conditions of the statement for what ranks after an item are made of comparisons and searches. -/
theorem has_byElement (hvalue : value ≠ .null) (htie : tieBreak.2.Has { field := fun _ => True }) :
    ∀ q ∈ Paging.byElement field subId subProp value bound tieBreak, ∀ p ∈ q, p.2.Has { field := fun _ => True } := by
  have hcompare (op : Comparison) (operand : Value) : (Condition.compare op operand).Has { field := fun _ => True } :=
    .compare trivial
  have hsearch (op : Membership) {c : Condition} (hc : c.Has { field := fun _ => True }) :
      (Condition.nested op (.query (Paging.element subId subProp c))).Has { field := fun _ => True } := by
    refine Condition.has_nested_iff.2 ?_
    simp [Paging.element, Query.require, Query.single, Query.Has, Condition.eq, hcompare, hc]
  rw [Paging.byElement, Paging.alternatives_of_ne_null hvalue]
  intro q hq p hp
  simp only [List.mem_cons, List.not_mem_nil, or_false] at hq
  rcases hq with rfl | rfl | rfl
  · rw [List.mem_singleton.1 hp]
    exact hsearch .find (hcompare _ _)
  · rcases List.mem_cons.1 hp with rfl | hp
    · exact hsearch .find (hcompare _ _)
    · rw [List.mem_singleton.1 hp]
      exact htie
  · rw [List.mem_singleton.1 hp]
    exact hsearch .nfind (hcompare _ _)

/-- When the statement for what ranks after an item can be written, the bounds on its value and on what breaks the tie
can. -/
theorem writes_of_byElement {tieBound : Bound} {tieField : String} {id : Value} (hvalue : value ≠ .null)
    (h : ∀ q ∈ Paging.byElement field subId subProp value bound (tieField, .within tieBound id),
      ∀ p ∈ q, p.2.Has Condition.writtenDaysShape) :
    (Comparison.bound bound).Writes value ∧ (Comparison.bound tieBound).Writes id := by
  rw [Paging.byElement, Paging.alternatives_of_ne_null hvalue] at h
  simp only [List.forall_mem_cons, Query.single, Condition.find, Condition.writtenDays_nested_iff, Paging.element,
    Query.require, List.singleton_append] at h
  obtain ⟨⟨⟨-, hvalue, -⟩, -⟩, ⟨-, hid, -⟩, -⟩ := h
  exact ⟨Condition.writtenDays_compare_iff.1 hvalue, Condition.writtenDays_compare_iff.1 hid⟩

end Fragments

/-! ## The two routes -/

namespace Translator

variable {t : Translator} {f : Filter} {field subProp : String} {last value : Value}

/-- In the search for what ranks after an item with a value, the sort asks for the element by the names of its paths and
the statement by those inside the name of the collection. They agree on the collection, and on the fields exactly when
the map has one name for both; so they do when the collection keeps its name. -/
theorem build_continueAfter_byElement (hfield : f.sortField = .text field) (hprop : f.subProp = .text subProp)
    (hsort : f.hasSort t.idField = true) (hnested : f.hasNestedSort = true)
    (hvalue : f.sortValue t.idField last = .ok value) (hpresent : value ≠ .null)
    (hid : last.resolve t.idField ≠ .null) :
    ∃ next, (f.continueAfter t.idField last).result = .ok next ∧
      ∀ body, (t.build next).result = .ok body → ∃ others limit idLimit,
        (t.translateEach f.statements).result = .ok others ∧
        rangeOperand value = some limit ∧ rangeOperand (last.resolve t.idField) = some idLimit ∧
        body.query = .every (others ++ [(ElementNames.ofQuery t.fieldMap field subProp).afterClause f.subId value limit
          f.direction.afterBound (.range (t.fieldMap.nameOf t.idField) f.direction.afterBound idLimit)]) ∧
        body.sort = [(ElementNames.ofSort t.fieldMap field subProp).sortClause t.nestedSortStyle f.direction t.missing
          f.subId, .byId t.idField f.direction] ∧
        (ElementNames.ofQuery t.fieldMap field subProp).path = (ElementNames.ofSort t.fieldMap field subProp).path ∧
        (ElementNames.ofQuery t.fieldMap field subProp = ElementNames.ofSort t.fieldMap field subProp ↔
          t.fieldMap.nameOf (Path.join (t.fieldMap.nameOf field) "id") = t.fieldMap.nameOf (Path.join field "id") ∧
          t.fieldMap.nameOf (Path.join (t.fieldMap.nameOf field) subProp) =
            t.fieldMap.nameOf (Path.join field subProp)) ∧
        (t.fieldMap.nameOf field = field →
          ElementNames.ofQuery t.fieldMap field subProp = ElementNames.ofSort t.fieldMap field subProp) := by
  have hsub : f.subId ≠ .null := by
    intro hnull
    rw [Filter.hasNestedSort, hnull] at hnested
    cases hnested
  refine ⟨_, Filter.result_continueAfter rfl hid
    (Filter.afterItem_byElement hfield hprop hnested hsort hvalue (last.resolve t.idField)), ?_⟩
  intro body hbody
  obtain ⟨hquery, hclauses, -⟩ := build_eq_ok hbody
  have hadded : ∀ q ∈ Paging.byElement field f.subId subProp value f.direction.afterBound
      (t.idField, .within f.direction.afterBound (last.resolve t.idField)),
      ∀ p ∈ q, p.2.Has { field := fun _ => True } := has_byElement hpresent (.compare trivial)
  have hafter := yields_translateEach (t := t) (List.forall_mem_singleton.2 hadded)
  obtain ⟨clauses, ⟨others, added, hothers, ⟨rfl, hwritten⟩, rfl⟩, hevery⟩ := yields_translateStatements
    (yields_translateEach_append (P := fun others => (t.translateEach f.statements).result = .ok others)
      (fun _ h => h) hafter) body.query hquery
  obtain ⟨hvalueWritten, hidWritten⟩ := writes_of_byElement hpresent (List.forall_mem_singleton.1 hwritten)
  obtain ⟨limit, hlimit, hrange⟩ := Comparison.exists_rangeOperand hvalueWritten
  obtain ⟨idLimit, hidLimit, hidRange⟩ := Comparison.exists_rangeOperand hidWritten
  refine ⟨others, limit, idLimit, hothers, hlimit, hidLimit, ?_, ?_, rfl, ElementNames.ofQuery_eq_ofSort_iff,
    ElementNames.ofQuery_eq_ofSort⟩
  · have htie : (Condition.within f.direction.afterBound (last.resolve t.idField)).fragment t.fieldMap
        (t.fieldMap.nameOf t.idField) = .must (.range (t.fieldMap.nameOf t.idField) f.direction.afterBound idLimit) :=
      hidRange _
    rw [hevery, List.map_singleton,
      statementOf_byElement (Filter.ne_empty_of_hasSort hfield hsort) hsub hpresent hrange htie]
  · exact Except.ok.inj (hclauses.symm.trans (translateSort_byElement hsort hnested hfield hprop))

/-- An index with names of its own for lists, for their identifiers and for the days on which they were joined. -/
def membershipNames : FieldMap :=
  .ofEntries [("lists", some "memberships"), ("lists.id", some "memberships.key"),
    ("memberships.id", some "memberships.key"), ("lists.joined", some "memberships.joined")]

/-- The members of a list that have a mail address, by the day on which they joined it. -/
def byJoining : Filter :=
  { statements := Filter.statementsOf [[[("mail", .neq .null)]]], sortField := .text "lists", subId := .text "news",
    subProp := .text "joined" }

/-- A member of two lists. -/
def member : Value :=
  .object [("id", .int 7), ("mail", .text "a@b"), ("lists", .list [.object [("id", .text "jobs"), ("joined", .int 3)],
    .object [("id", .text "news"), ("joined", .int 8)]])]

/-- Where both spellings of a field have one name, the sort and the statement read the same fields. -/
theorem build_continueAfter_byElement_joining :
    ElementNames.ofQuery membershipNames "lists" "joined" = ElementNames.ofSort membershipNames "lists" "joined" ∧
      ∃ next body, (byJoining.continueAfter "id" member).result = .ok next ∧
        (build { fieldMap := membershipNames } next).result = .ok body ∧
        body.query = .every [.bool (.must (.present "mail")),
          ElementNames.afterClause ⟨"memberships", "memberships.key", "memberships.joined"⟩ (.text "news") (.int 8)
            (.int 8) .gt (.range "id" .gt (.int 7))] ∧
        body.sort = [ElementNames.sortClause ⟨"memberships", "memberships.key", "memberships.joined"⟩ .legacy .asc
          "_last" (.text "news"), .byId "id" .asc] := by
  have hvalue : byJoining.sortValue "id" member = .ok (.int 8) := rfl
  obtain ⟨next, hnext, hbody⟩ := build_continueAfter_byElement (t := { fieldMap := membershipNames }) rfl rfl rfl rfl
    hvalue nofun nofun
  cases hnext
  obtain ⟨others, limit, idLimit, hothers, hlimit, hidLimit, hquery, hsort, -, hiff, -⟩ := hbody _ rfl
  cases hothers
  cases hlimit
  cases hidLimit
  exact ⟨hiff.2 ⟨rfl, rfl⟩, _, _, rfl, rfl, hquery, hsort⟩

/-- An index with a keyword for the value of custom fields and a name of its own for their keys. -/
def customNames : FieldMap :=
  .ofRenames [("fields", some "cf"), ("fields.value", some "cf.value.keyword"), ("fields.id", some "cf.key")] []
    "keyword"

/-- Everything, the greatest values of a custom field first. -/
def byCustomValue : Filter :=
  { sortField := .text "fields", subId := .text "size", subProp := .text "value", direction := .desc }

/-- Where only the path of a field has a name, the sort reads the field under that name and the statement does not. -/
theorem build_continueAfter_apart :
    ∃ next body, (byCustomValue.continueAfter "id" (.object [("id", .int 1),
        ("fields", .list [.object [("id", .text "size"), ("value", .int 5)]])])).result = .ok next ∧
      (build { fieldMap := customNames } next).result = .ok body ∧
      body.query = ElementNames.afterClause ⟨"cf", "cf.id", "cf.value"⟩ (.text "size") (.int 5) (.int 5) .lt
        (.range "id" .lt (.int 1)) ∧
      body.sort = [ElementNames.sortClause ⟨"cf", "cf.key", "cf.value.keyword"⟩ .legacy .desc "_last" (.text "size"),
        .byId "id" .desc] ∧
      "cf.id" ≠ "cf.key" ∧ "cf.value" ≠ "cf.value.keyword" :=
  ⟨_, _, rfl, rfl, rfl, rfl, by decide, by decide⟩

end Translator

end Winnow
