import Winnow.Proofs.ManyValues
import Winnow.Proofs.Meaning
import Winnow.Search.Sort

/-!
# What a sort asks for

The clauses of a sort, read from the body of a search. A rule of a sort looks at the values of a field, or of a field of
those elements of a collection that pass a filter; it ranks documents by the least of these values in ascending order
and by the greatest in descending order, and those without a value last. Rules are applied one after the other, each
where those before it do not decide (`SortRule.Precedes`).

Sorting items in memory and asking a search for their order are two readings of the same settings, and they agree:
items are sorted into the one arrangement of them that the rules allow (`Filter.sortItems_iff_precedes`).
-/

namespace Winnow

/-! ## Rules -/

/-- The elements of a collection that a rule looks at: those with a value in a field. -/
structure ElementFilter where
  path : String
  field : String
  value : Value

/-- A rule of a sort: a field and a direction, and the elements that it is looked up in, if not in documents. -/
structure SortRule where
  field : String
  direction : Direction
  elements : Option ElementFilter

/-- The direction with a given word. -/
def Direction.ofWord? : String → Option Direction
  | "asc" => some .asc
  | "desc" => some .desc
  | _ => none

namespace SortRule

/-- The elements that a path and a filter of a sort clause ask for. -/
def readElements? (path filter : Value) : Option ElementFilter :=
  match path, filter with
  | .text path, .object [("term", .object [(field, value)])] => some ⟨path, field, value⟩
  | _, _ => none

/-- Whether documents without a value are last, as they are unless the clause says something else. -/
def missingLast (entries : List (String × Value)) : Bool :=
  match entries.lookup "missing" with
  | none => true
  | some (.text place) => place == "_last"
  | some _ => false

/-- The rule of a sort clause as it stands in a search body, the elements under keys of their own or in one object. -/
def read? : Value → Option SortRule
  | .object [(field, .object entries)] => do
    let direction ← (Value.lookup "order" entries).asText?.bind Direction.ofWord?
    if !missingLast entries then none else
      match entries.lookup "nested_path", entries.lookup "nested" with
      | none, none => return ⟨field, direction, none⟩
      | some path, none => return ⟨field, direction, ← readElements? path (Value.lookup "nested_filter" entries)⟩
      | none, some (.object nested) =>
        return ⟨field, direction, ← readElements? (Value.lookup "path" nested) (Value.lookup "filter" nested)⟩
      | _, _ => none
  | _ => none

/-- The values in a document that a rule looks at. -/
def values (rule : SortRule) (item : Value) : List Value :=
  match rule.elements with
  | none => (item.resolve rule.field).elements
  | some filter =>
    let passing := (item.resolve filter.path).elements.filter fun element =>
      (Clause.term filter.field filter.value).reads .atStart filter.path element
    passing.flatMap fun element => (element.resolve (Path.relative filter.path rule.field)).elements

end SortRule

/-- The mark by which some values are ranked: the least in ascending and the greatest in descending order. -/
def Kind.markOf (k : Kind) (d : Direction) (values : List Value) : Option k.Mark :=
  match d with
  | .asc => (values.filterMap k.read).min?
  | .desc => (values.filterMap k.read).max?

namespace SortRule

/-- The rank of a document by a rule, the values of each field being of a kind; documents without a value are last. -/
def rank (types : String → Kind) (rule : SortRule) (item : Value) :
    WithTop (rule.direction.Ranked (types rule.field).Mark) :=
  rankedOrLast rule.direction ((types rule.field).markOf rule.direction (rule.values item))

/-- Whether a document comes before another by some rules: by the first one that tells them apart. -/
def Precedes (types : String → Kind) : List SortRule → Value → Value → Prop
  | [], _, _ => False
  | rule :: rest, x, y =>
    rule.rank types x < rule.rank types y ∨ rule.rank types x = rule.rank types y ∧ Precedes types rest x y

end SortRule

/-! ## The marks of items -/

namespace Kind

variable {k : Kind} {I : Type} {d : Direction} {values others : List Value}

theorem markOf_eq_none : k.markOf d [] = none := by
  cases d <;> rfl

/-- The mark of some values is that of one of them which no other comes before. -/
theorem markOf_eq_some {v : Value} {a : k.Mark} (hv : v ∈ values) (ha : k.read v = some a)
    (hleast : ∀ w ∈ values, ∀ b, k.read w = some b → d.ranked a ≤ d.ranked b) : k.markOf d values = some a := by
  have hmem : a ∈ values.filterMap k.read := List.mem_filterMap.2 ⟨v, hv, ha⟩
  cases d with
  | asc =>
    refine List.min?_eq_some_iff.2 ⟨hmem, ?_⟩
    intro b hb
    obtain ⟨w, hw, hread⟩ := List.mem_filterMap.1 hb
    exact hleast w hw b hread
  | desc =>
    refine List.max?_eq_some_iff.2 ⟨hmem, ?_⟩
    intro b hb
    obtain ⟨w, hw, hread⟩ := List.mem_filterMap.1 hb
    exact hleast w hw b hread

/-- What items are ranked by: the mark of their values, none being last, and that of their identifier. -/
def sortKey (d : Direction) (m : Option k.Mark) (i : I) : WithTop (d.Ranked k.Mark) ×ₗ d.Ranked I :=
  toLex (rankedOrLast d m, d.ranked i)

/-- Keys with the same identifier are those of the same one. -/
theorem eq_of_sortKey_eq {m n : Option k.Mark} {i j : I} (h : sortKey d m i = sortKey d n j) : i = j :=
  Direction.ranked_inj.1 (congrArg (fun key => (ofLex key).2) h)

/-- One key ranks before another by the marks of their values, and then by those of their identifiers. -/
theorem before_sortKey [LinearOrder I] {v w p q : Value} {i j : I} (hv : k.Ranks d values v)
    (hw : k.Ranks d others w) (hid : orderOf p q = .ok (some (compare i j))) :
    RankKey.before d ⟨v, p⟩ ⟨w, q⟩ =
      .ok (decide (sortKey d (k.markOf d values) i < sortKey d (k.markOf d others) j)) := by
  simp only [sortKey, Prod.Lex.toLex_lt_toLex]
  -- Only two values that are both there are compared; otherwise the one that is missing decides, or the identifiers.
  cases hv with
  | none hempty =>
    cases hw with
    | none hempty' =>
      rw [RankKey.before_null hid, hempty, hempty', markOf_eq_none]
      simp
    | some hu' ha' hleast' =>
      rw [RankKey.before_null_left (ne_null_of_read (rankable_of_read ha').2), hempty, markOf_eq_none,
        markOf_eq_some hu' ha' hleast']
      simp [rankedOrLast]
  | some hu ha hleast =>
    cases hw with
    | none hempty' =>
      rw [RankKey.before_null_right (ne_null_of_read (rankable_of_read ha).2), hempty', markOf_eq_none,
        markOf_eq_some hu ha hleast]
      simp [rankedOrLast]
    | some hu' ha' hleast' =>
      rw [before_ranked ha ha' hid, markOf_eq_some hu ha hleast, markOf_eq_some hu' ha' hleast']
      simp [rankedOrLast, Direction.ranked_inj]

end Kind

namespace SortRule

variable {types : String → Kind} {d : Direction} {idField : String} {x y : Value} {i j : (types idField).Mark}

/-- The rule of the identifier ranks a document by the mark of its identifier. -/
theorem rank_identifier (hx : (types idField).read (x.resolve idField) = some i) :
    SortRule.rank types ⟨idField, d, none⟩ x = (d.ranked i : WithTop (d.Ranked (types idField).Mark)) := by
  have hself : (SortRule.mk idField d none).values x = [x.resolve idField] := Kind.elements_of_read hx
  have hmark : (types idField).markOf d [x.resolve idField] = some i := by
    refine Kind.markOf_eq_some (List.mem_singleton_self _) hx ?_
    intro w hw b hb
    obtain rfl := List.mem_singleton.1 hw
    rw [hx] at hb
    cases hb
    exact le_rfl
  rw [SortRule.rank, hself]
  show rankedOrLast d ((types idField).markOf d [x.resolve idField]) = _
  rw [hmark]
  rfl

/-- The rule of the identifier alone tells documents apart by their identifiers. -/
theorem precedes_identifier (hx : (types idField).read (x.resolve idField) = some i)
    (hy : (types idField).read (y.resolve idField) = some j) :
    Precedes types [⟨idField, d, none⟩] x y ↔ d.ranked i < d.ranked j := by
  simp only [Precedes, and_false, or_false]
  rw [rank_identifier hx, rank_identifier hy]
  exact WithTop.coe_lt_coe

/-- Where nothing but the identifier is looked at, documents are in the order of keys without a value. -/
theorem precedes_identifier_iff_sortKey {k : Kind} (hx : (types idField).read (x.resolve idField) = some i)
    (hy : (types idField).read (y.resolve idField) = some j) :
    Precedes types [⟨idField, d, none⟩] x y ↔
      Kind.sortKey d (k.markOf d []) i < Kind.sortKey d (k.markOf d []) j := by
  rw [precedes_identifier hx hy, Kind.sortKey, Kind.sortKey, Prod.Lex.toLex_lt_toLex]
  simp

/-- With a rule before that of the identifier, documents are in the order of their keys. -/
theorem precedes_iff_sortKey (rule : SortRule) (hdirection : rule.direction = d)
    (hx : (types idField).read (x.resolve idField) = some i) (hy : (types idField).read (y.resolve idField) = some j) :
    Precedes types [rule, ⟨idField, d, none⟩] x y ↔
      Kind.sortKey d ((types rule.field).markOf d (rule.values x)) i <
        Kind.sortKey d ((types rule.field).markOf d (rule.values y)) j := by
  subst hdirection
  rw [Precedes, precedes_identifier hx hy, Kind.sortKey, Kind.sortKey, Prod.Lex.toLex_lt_toLex]
  rfl

end SortRule

/-! ## Items with identifiers -/

/-- Items with distinct identifiers of one ordered kind. -/
structure Identified (ids : Kind) (idField : String) (items : List Value) : Prop where
  read : ∀ item ∈ items, ∃ i, ids.read (item.resolve idField) = some i
  ordered : ∀ x ∈ items, ∀ y ∈ items, ∃ order, orderOf (x.resolve idField) (y.resolve idField) = .ok (some order)
  distinct : items.Pairwise fun x y => orderOf (x.resolve idField) (y.resolve idField) ≠ .ok (some .eq)

/-- The identifiers of items are in the order of their marks. -/
theorem Identified.orderOf_eq {ids : Kind} {idField : String} {items : List Value} (h : Identified ids idField items)
    {x y : Value} (hx : x ∈ items) (hy : y ∈ items) {i j : ids.Mark} (hi : ids.read (x.resolve idField) = some i)
    (hj : ids.read (y.resolve idField) = some j) :
    orderOf (x.resolve idField) (y.resolve idField) = .ok (some (compare i j)) := by
  obtain ⟨order, horder⟩ := h.ordered x hx y hy
  rw [horder, Kind.orderOf_eq hi hj horder]

/-- Items with values of a kind, and with distinct identifiers in the order of marks, are ranked by the marks of
both. -/
theorem Filter.rankedBy_sortKey {α I : Type} [LinearOrder I] {f : Filter} {idField : String} {view : α → Value}
    {items : List α} {k : Kind} {values : Value → List Value} {idMark : α → I}
    (horder : ∀ x ∈ items, ∀ y ∈ items, orderOf ((view x).resolve idField) ((view y).resolve idField) =
      .ok (some (compare (idMark x) (idMark y))))
    (hdistinct : items.Pairwise fun x y =>
      orderOf ((view x).resolve idField) ((view y).resolve idField) ≠ .ok (some .eq))
    (hvalues : ∀ x ∈ items, ∃ value, f.sortValue idField (view x) = .ok value ∧
      k.Ranks f.direction (values (view x)) value) :
    (∃ rank, f.RankedBy idField view items
      (fun x => Kind.sortKey f.direction (k.markOf f.direction (values (view x))) (idMark x)) rank) ∧ items.Nodup := by
  have hnodup : (items.map idMark).Nodup := by
    refine List.pairwise_map.2 (hdistinct.imp_of_mem ?_)
    intro x y hx hy hne heq
    refine hne ?_
    rw [horder x hx y hy, heq]
    exact congrArg (fun order => Except.ok (some order)) (compare_eq_iff_eq.2 rfl)
  choose! value hvalue hranks using hvalues
  refine ⟨⟨fun x => ⟨value x, (view x).resolve idField⟩, ?_, ?_, ?_⟩, hnodup.of_map⟩
  · intro x hx y hy hkey
    exact List.inj_on_of_nodup_map hnodup hx hy (Kind.eq_of_sortKey_eq hkey)
  · intro x hx
    rw [RankKey.of, hvalue x hx]
    rfl
  · intro x hx y hy
    exact Kind.before_sortKey (hranks x hx) (hranks y hy) (horder x hx y hy)

/-! ## The clauses of a sort -/

namespace SortRule

theorem read?_byId (field : String) (d : Direction) :
    read? (SortClause.byId field d).toValue = some ⟨field, d, none⟩ := by
  cases d <;> rfl

theorem read?_byField (field : String) (d : Direction) :
    read? (SortClause.byField field d "_last").toValue = some ⟨field, d, none⟩ := by
  cases d <;> rfl

/-- In either style, a clause that looks into a collection is read as its rule. -/
theorem read?_byElement (style : NestedSortStyle) (field : String) (d : Direction) (path filterField : String)
    (filterValue : Value) :
    read? (SortClause.byElement style field d "_last" path filterField filterValue).toValue =
      some ⟨field, d, some ⟨path, filterField, filterValue⟩⟩ := by
  cases style <;> cases d <;> rfl

/-- The one value of a list that passes a test is the first that does. -/
theorem filter_eq_find? {α : Type} {p : α → Bool} {items : List α} (h : (items.filter p).length ≤ 1) :
    items.filter p = (items.find? p).toList := by
  rw [← List.head?_filter]
  -- Of a list with two values or more the head would not be all.
  match hfilter : items.filter p with
  | [] => rfl
  | [_] => rfl
  | _ :: _ :: _ =>
    rw [hfilter] at h
    simp at h

/-- The filter of a rule for the element with an identifier is passed by the elements with it. -/
theorem reads_elementFilter {field : String} (hfield : field ≠ "") (name : String) {element : Value}
    (hid : (element.resolve "id").IsElementId) :
    (Clause.term (Path.join field "id") (.text name)).reads .atStart field element =
      (element.resolve "id").same (.text name) := by
  rw [Clause.reads, ← Path.inside_eq_join hfield, Path.relative_inside]
  exact Comparison.reads_eq (holds_eq_elementId .atStart hid name)

/-- The values that a rule looks at in the one element with an identifier are those of the element that a sort
finds. -/
theorem values_byElement {field name subProp : String} {d : Direction} (hfield : field ≠ "") {item : Value}
    (hids : ∀ element ∈ (item.resolve field).elements, (element.resolve "id").IsElementId)
    (hone : ((item.resolve field).elements.filter fun element : Value =>
      (element.resolve "id").same (.text name)).length ≤ 1) :
    (SortRule.mk (Path.join field subProp) d (some ⟨field, Path.join field "id", .text name⟩)).values item =
      ((item.resolve field).elements.find? fun element : Value =>
        (element.resolve "id").same (.text name)).toList.flatMap fun element => (element.resolve subProp).elements := by
  have hpassing : ((item.resolve field).elements.filter fun element =>
      (Clause.term (Path.join field "id") (.text name)).reads .atStart field element) =
        (item.resolve field).elements.filter fun element : Value => (element.resolve "id").same (.text name) :=
    List.filter_congr fun element helement => reads_elementFilter hfield name (hids element helement)
  have hrelative : Path.relative field (Path.join field subProp) = subProp := by
    rw [← Path.inside_eq_join hfield, Path.relative_inside]
  simp only [values, hpassing, filter_eq_find? hone, hrelative]

end SortRule

namespace Translator

variable {t : Translator} {f : Filter}

/-- Under an identity map, a sort field keeps its name. -/
theorem result_sortName (hmap : t.fieldMap = .identity) (field : String) :
    (t.sortName (.text field)).result = .ok field := by
  show (t.fieldMap.apply field).result = _
  rw [result_apply, hmap, FieldMap.nameOf_identity]

/-- A filter without a sort field is sorted by the identifier alone. -/
theorem translateSort_unsorted (t : Translator) (hsort : f.hasSort t.idField = false) :
    (t.translateSort f).result = .ok [.byId t.idField f.direction] := by
  rw [translateSort]
  simp only [hsort]
  rfl

/-- A filter that sorts by a field of items is translated to a clause for the field under its own name. -/
theorem translateSort_plain (hmap : t.fieldMap = .identity) (hsort : f.hasSort t.idField = true)
    (hnested : f.hasNestedSort = false) {field : String} (hfield : f.sortField = .text field) :
    (t.translateSort f).result = .ok [.byField field f.direction t.missing, .byId t.idField f.direction] := by
  have hprimary : (t.primarySort f).result = .ok (.byField field f.direction t.missing) := by
    rw [primarySort, hnested, hfield]
    exact Logged.result_bind (result_sortName hmap field) _
  rw [translateSort]
  simp only [hsort]
  exact Logged.result_bind hprimary _

/-- A filter that sorts by a field of one element of a collection is translated to a clause for the elements with its
identifier, each of their fields under the name that the map has for its path. -/
theorem translateSort_byElement (hsort : f.hasSort t.idField = true) (hnested : f.hasNestedSort = true)
    {field subProp : String} (hfield : f.sortField = .text field) (hprop : f.subProp = .text subProp) :
    (t.translateSort f).result = .ok [.byElement t.nestedSortStyle (t.fieldMap.nameOf (Path.join field subProp))
      f.direction t.missing (t.fieldMap.nameOf field) (t.fieldMap.nameOf (Path.join field "id")) f.subId.searchable,
      .byId t.idField f.direction] := by
  have hprimary : (t.primarySort f).result = .ok (.byElement t.nestedSortStyle
      (t.fieldMap.nameOf (Path.join field subProp)) f.direction t.missing (t.fieldMap.nameOf field)
      (t.fieldMap.nameOf (Path.join field "id")) f.subId.searchable) := by
    rw [primarySort, if_pos hnested, hfield, hprop]
    rfl
  rw [translateSort]
  simp only [hsort]
  exact Logged.result_bind hprimary _

/-- Under an identity map, the clause for the elements with an identifier has the paths of the filter. -/
theorem translateSort_nested (hmap : t.fieldMap = .identity) (hsort : f.hasSort t.idField = true)
    (hnested : f.hasNestedSort = true) {field name subProp : String} (hfield : f.sortField = .text field)
    (hsub : f.subId = .text name) (hprop : f.subProp = .text subProp) :
    (t.translateSort f).result = .ok [.byElement t.nestedSortStyle (Path.join field subProp) f.direction t.missing field
      (Path.join field "id") (.text name), .byId t.idField f.direction] := by
  rw [translateSort_byElement hsort hnested hfield hprop, hmap, hsub]
  simp only [FieldMap.nameOf_identity]
  rfl

end Translator

/-! ## Items in the order that a search is asked for -/

/-- Items that are values of their own are the values of their list. -/
theorem Value.elementsOfItems_eq {items : List Value} (h : ∀ v ∈ items, v.elements = [v]) :
    elementsOfItems items = items := by
  rw [elementsOfItems_eq_flatMap, List.flatMap_congr h, List.flatMap_singleton']

/-- A collection with at most one element of an identifier, and that with values of a kind in a property. -/
structure Kind.OfElement (k : Kind) (name subProp : String) (collection : Value) : Prop where
  ids : ∀ element ∈ collection.elements, (element.resolve "id").IsElementId
  one : (collection.elements.filter fun element => (element.resolve "id").same (.text name)).length ≤ 1
  values : ∀ element ∈ collection.elements, (element.resolve "id").same (.text name) = true →
    k.OfAll (element.resolve subProp).elements

/-- A filter with items that it can sort, given the kind of values in each field: their identifiers are distinct and
ordered, and what the sort looks at in them is of the kind of its field. -/
structure Filter.IsSortable (f : Filter) (types : String → Kind) (idField : String) (items : List Value) : Prop where
  sortField : f.sortField.IsSortName
  subId : f.subId.IsSortName
  subProp : f.subProp.IsSortName
  ids : Identified (types idField) idField items
  plain : ∀ field, f.sortField = .text field → f.hasSort idField = true → f.hasNestedSort = false →
    ∀ item ∈ items, (types field).OfAll (item.resolve field).elements
  nested : ∀ field name subProp, f.sortField = .text field → f.subId = .text name → f.subProp = .text subProp →
    f.hasSort idField = true → f.hasNestedSort = true →
    ∀ item ∈ items, (types (Path.join field subProp)).OfElement name subProp (item.resolve field)

namespace Filter

variable {f : Filter} {types : String → Kind} {idField : String}

/-- The sort value of an item that is ranked by an element is that of the values which the rule for the element looks
at. -/
theorem sortValue_byElement {field name subProp : String} (hsort : f.hasSort idField = true)
    (hnested : f.hasNestedSort = true) (hfield : f.sortField = .text field) (hsub : f.subId = .text name)
    (hprop : f.subProp = .text subProp) {k : Kind} {item : Value} (h : k.OfElement name subProp (item.resolve field)) :
    ∃ value, f.sortValue idField item = .ok value ∧ k.Ranks f.direction ((SortRule.mk (Path.join field subProp)
      f.direction (some ⟨field, Path.join field "id", .text name⟩)).values item) value := by
  have hne := ne_empty_of_hasSort hfield hsort
  have hsource := sortSource_of_nested hfield hnested hsub hprop item
  rw [SortRule.values_byElement hne h.ids h.one]
  cases hfound : (item.resolve field).elements.find? fun element => (element.resolve "id").same (.text name) with
  | none =>
    rw [hfound] at hsource
    exact Kind.sortValue_of_source hsort hsource nofun
  | some element =>
    rw [hfound] at hsource
    have hsame := List.find?_some (p := fun element : Value => (element.resolve "id").same (.text name)) hfound
    have hvalues := h.values element (List.mem_of_find?_eq_some hfound) hsame
    simpa using Kind.sortValue_of_source hsort hsource hvalues

/-- Items are sorted into the one arrangement of them that some rules allow when the rules order them as the keys of
what they look at and of their identifiers. -/
theorem sortItems_of_rules {α : Type} {view : α → Value} {items : List α} {k : Kind} (values : Value → List Value)
    {rules : List SortRule} (hids : Identified (types idField) idField (items.map view))
    (hvalues : ∀ x ∈ items, ∃ value, f.sortValue idField (view x) = .ok value ∧
      k.Ranks f.direction (values (view x)) value)
    (hrules : ∀ x y i j, (types idField).read (x.resolve idField) = some i →
      (types idField).read (y.resolve idField) = some j →
      (SortRule.Precedes types rules x y ↔
        Kind.sortKey f.direction (k.markOf f.direction (values x)) i <
          Kind.sortKey f.direction (k.markOf f.direction (values y)) j)) :
    ∃ sorted, f.sortItems idField view items = .ok sorted ∧ sorted.Perm items ∧ ∀ other, other.Perm items →
      ((other.Pairwise fun x y => SortRule.Precedes types rules (view x) (view y)) ↔ other = sorted) := by
  have hread : ∀ x ∈ items, ∃ i, (types idField).read ((view x).resolve idField) = some i :=
    fun x hx => hids.read _ (List.mem_map_of_mem hx)
  choose! idMark hmark using hread
  -- The keys put the items in one order; what is left is that the rules put them in the order of the keys.
  have horder := fun x hx y hy => hids.orderOf_eq (List.mem_map_of_mem hx) (List.mem_map_of_mem hy) (hmark x hx)
    (hmark y hy)
  obtain ⟨⟨rank, hranked⟩, hnodup⟩ := rankedBy_sortKey horder (List.pairwise_map.1 hids.distinct) hvalues
  obtain ⟨sorted, hsorted, hperm, hunique⟩ := hranked.sortItems_iff hnodup
  refine ⟨sorted, hsorted, hperm, ?_⟩
  intro other hother
  rw [← hunique other hother]
  refine List.Pairwise.iff_of_mem ?_
  intro x y hx hy
  exact hrules _ _ _ _ (hmark x (hother.subset hx)) (hmark y (hother.subset hy))

/-- Items are sorted as the search is asked to sort them: the clauses of the sort, in either style, are read as rules,
and of all arrangements of the items the sorted one is the only one that the rules allow. -/
theorem sortItems_iff_precedes {α : Type} {view : α → Value} {items : List α} {t : Translator}
    (hmap : t.fieldMap = .identity) (hmissing : t.missing = "_last")
    (h : f.IsSortable types t.idField (items.map view)) :
    ∃ clauses rules sorted, (t.translateSort f).result = .ok clauses ∧
      (clauses.map SortClause.toValue).mapM SortRule.read? = some rules ∧
      f.sortItems t.idField view items = .ok sorted ∧ sorted.Perm items ∧ ∀ other, other.Perm items →
        ((other.Pairwise fun x y => SortRule.Precedes types rules (view x) (view y)) ↔ other = sorted) := by
  -- The clauses differ with the settings: no sort field, a field of items, or one of an element. In each case the first
  -- rule looks at the values that the sort looks at.
  cases hsort : f.hasSort t.idField with
  | false =>
    have hvalues : ∀ x ∈ items, ∃ value, f.sortValue t.idField (view x) = .ok value ∧
        (types t.idField).Ranks f.direction [] value := by
      intro x _
      refine ⟨.null, ?_, .none rfl⟩
      rw [sortValue, hsort]
      rfl
    obtain ⟨sorted, hsorted⟩ := sortItems_of_rules (fun _ => []) h.ids hvalues fun x y i j hx hy =>
      SortRule.precedes_identifier_iff_sortKey hx hy
    exact ⟨_, _, sorted, t.translateSort_unsorted hsort, by simp [SortRule.read?_byId], hsorted⟩
  | true =>
    obtain ⟨field, hfield⟩ := h.sortField.exists_text (Bool.and_eq_true_iff.1 hsort).1
    cases hnested : f.hasNestedSort with
    | false =>
      have hvalues := fun x hx => Kind.sortValue_of_ofAll hfield hnested hsort
        (h.plain field hfield hsort hnested (view x) (List.mem_map_of_mem hx))
      obtain ⟨sorted, hsorted⟩ := sortItems_of_rules _ h.ids hvalues fun x y i j hx hy =>
        SortRule.precedes_iff_sortKey ⟨field, f.direction, none⟩ rfl hx hy
      refine ⟨_, _, sorted, t.translateSort_plain hmap hsort hnested hfield, ?_, hsorted⟩
      simp [hmissing, SortRule.read?_byField, SortRule.read?_byId]
    | true =>
      obtain ⟨name, hsub⟩ := h.subId.exists_text (Bool.and_eq_true_iff.1 hnested).1
      obtain ⟨subProp, hprop⟩ := h.subProp.exists_text (Bool.and_eq_true_iff.1 hnested).2
      have hvalues := fun x hx => sortValue_byElement hsort hnested hfield hsub hprop
        (h.nested field name subProp hfield hsub hprop hsort hnested (view x) (List.mem_map_of_mem hx))
      obtain ⟨sorted, hsorted⟩ := sortItems_of_rules _ h.ids hvalues fun x y i j hx hy =>
        SortRule.precedes_iff_sortKey ⟨Path.join field subProp, f.direction, some _⟩ rfl hx hy
      refine ⟨_, _, sorted, t.translateSort_nested hmap hsort hnested hfield hsub hprop, ?_, hsorted⟩
      simp [hmissing, SortRule.read?_byElement, SortRule.read?_byId]

/-- A visit to a place on some days. -/
def visit (place : Value) (days : List Value) : Value :=
  .object [("id", place), ("days", .list days)]

/-- A visitor with visits to some places. -/
def visitor (id : Int) (visits : List (Value × List Value)) : Value :=
  .object [("id", .int id), ("visits", .list (visits.map fun v => visit v.1 v.2))]

/-- The elements of a collection of visits, of which at most one is to a named place, are those that a sort by the days
of visits to the place can look at. -/
theorem ofElement_visits (id : Int) {name : String} {visits : List (Value × List Value)}
    (hvisits : ∀ v ∈ visits, v.1.IsElementId ∧ Kind.moment.OfAll v.2)
    (hone : (visits.filter fun v => v.1.same (.text name)).length ≤ 1) :
    Kind.moment.OfElement name "days" ((visitor id visits).resolve "visits") := by
  have hresolve : (visitor id visits).resolve "visits" = .list (visits.map fun v => visit v.1 v.2) := by
    rw [Value.resolve, (by decide +kernel : Path.parts "visits" = ["visits"])]
    rfl
  have helements : (Value.list (visits.map fun v => visit v.1 v.2)).elements = visits.map fun v => visit v.1 v.2 :=
    Value.elementsOfItems_eq (List.forall_mem_map.2 fun _ _ => rfl)
  rw [hresolve]
  refine ⟨?_, ?_, ?_⟩
  · rw [helements]
    exact List.forall_mem_map.2 fun v hv => (hvisits v hv).1
  · rw [helements, List.filter_map, List.length_map]
    exact hone
  · rw [helements]
    intro element helement _
    obtain ⟨v, hv, rfl⟩ := List.mem_map.1 helement
    have hall : (Value.list v.2).elements = v.2 := Value.elementsOfItems_eq fun w hw => by
      obtain ⟨a, ha⟩ := (hvisits v hv).2 w hw
      exact Kind.elements_of_read ha
    show Kind.moment.OfAll (Value.list v.2).elements
    rw [hall]
    exact (hvisits v hv).2

/-- The third of March. -/
def third : Value :=
  .date { year := 2022, month := 3, day := 3 }

/-- The ninth of March. -/
def ninth : Value :=
  .date { year := 2022, month := 3, day := 9 }

/-- The beginning of the tenth by a clock that is two hours ahead, when it is still the ninth in universal time. -/
def tenthAhead : Value :=
  .datetime ⟨{ year := 2022, month := 3, day := 10 }, .midnight, some { micros := 7200000000 }⟩

/-- A visitor of the laboratory on two days, and of a numbered room later on. -/
def twice : Value :=
  visitor 1 [(.text "lab", [ninth, third]), (.int 4, [tenthAhead])]

/-- A visitor of the room only. -/
def elsewhere : Value :=
  visitor 2 [(.int 4, [ninth])]

/-- A visitor of the laboratory later on. -/
def later : Value :=
  visitor 3 [(.text "lab", [tenthAhead])]

/-- All visitors, the latest in the laboratory first. -/
def byLabDays : Filter :=
  { sortField := .text "visits", subId := .text "lab", subProp := .text "days", direction := .desc }

/-- The kinds of the fields of visitors. -/
def visitorKinds (field : String) : Kind :=
  if field = "visits.days" then .moment else .number

/-- The rules of the sort of visitors. -/
def labRules : List SortRule :=
  [⟨"visits.days", .desc, some ⟨"visits", "visits.id", .text "lab"⟩⟩, ⟨"id", .desc, none⟩]

/-- Of the visitors of the laboratory the later one is first, and the visitor of another room is last. -/
theorem sortItems_iff_precedes_byLabDays :
    byLabDays.IsSortable visitorKinds "id" ([twice, elsewhere, later].map id) ∧
      ∃ clauses, (Translator.translateSort {} byLabDays).result = .ok clauses ∧
        (clauses.map SortClause.toValue).mapM SortRule.read? = some labRules ∧
        byLabDays.sortItems "id" id [twice, elsewhere, later] = .ok [later, twice, elsewhere] ∧
        ∀ other : List Value, other.Perm [twice, elsewhere, later] →
          ((other.Pairwise (SortRule.Precedes visitorKinds labRules)) ↔ other = [later, twice, elsewhere]) := by
  have hthird : ∃ a, Kind.moment.read third = some a := Option.isSome_iff_exists.1 (by decide +kernel)
  have hninth : ∃ a, Kind.moment.read ninth = some a := Option.isSome_iff_exists.1 (by decide +kernel)
  have htenth : ∃ a, Kind.moment.read tenthAhead = some a := Option.isSome_iff_exists.1 (by decide +kernel)
  have hid : ∀ item ∈ [twice, elsewhere, later].map id, ∃ n : Int, item.resolve "id" = .int n := by
    simp only [List.map_cons, List.map_nil, List.forall_mem_cons]
    exact ⟨⟨1, rfl⟩, ⟨2, rfl⟩, ⟨3, rfl⟩, nofun⟩
  have hsortable : byLabDays.IsSortable visitorKinds "id" ([twice, elsewhere, later].map id) := by
    refine ⟨trivial, trivial, trivial, ⟨?_, ?_, ?_⟩, ?_, ?_⟩
    · intro item hitem
      obtain ⟨n, hn⟩ := hid item hitem
      rw [hn]
      exact ⟨_, rfl⟩
    · intro x hx y hy
      obtain ⟨n, hn⟩ := hid x hx
      obtain ⟨m, hm⟩ := hid y hy
      rw [hn, hm]
      exact ⟨_, rfl⟩
    · simp only [List.map_cons, List.map_nil, List.pairwise_cons, List.forall_mem_cons]
      exact ⟨⟨nofun, nofun, nofun⟩, ⟨nofun, nofun⟩, nofun, .nil⟩
    · intro _ _ _ hplain
      cases hplain
    · rintro _ _ _ ⟨⟩ ⟨⟩ ⟨⟩ - -
      simp only [List.map_cons, List.map_nil, List.forall_mem_cons]
      refine ⟨ofElement_visits 1 ?_ (by decide +kernel), ofElement_visits 2 ?_ (by decide +kernel),
        ofElement_visits 3 ?_ (by decide +kernel), nofun⟩
      · simp [Kind.OfAll, Value.IsElementId, hthird, hninth, htenth]
      · simp [Kind.OfAll, Value.IsElementId, hninth]
      · simp [Kind.OfAll, Value.IsElementId, htenth]
  have hsorted : byLabDays.sortItems "id" id [twice, elsewhere, later] = .ok [later, twice, elsewhere] := rfl
  obtain ⟨clauses, rules, sorted, hclauses, hrules, hsame, -, hiff⟩ :=
    sortItems_iff_precedes (t := {}) rfl rfl hsortable
  obtain rfl : sorted = [later, twice, elsewhere] := Except.ok.inj (hsame.symm.trans hsorted)
  cases hclauses
  cases hrules
  exact ⟨hsortable, _, rfl, rfl, hsorted, hiff⟩

end Filter

end Winnow
