import Winnow.Proofs.Accepted
import Winnow.Proofs.Duality
import Winnow.Proofs.Entries
import Winnow.Proofs.ManyValues
import Winnow.Proofs.SameElements

/-!
# What a filter sees of items

A condition sees nothing of an item but the values of its field (`Registry.evaluate_congr`), and a sort nothing but the
values of its field and the identifier. So items that agree on what a filter looks at are selected alike, whatever else
they hold (`Filter.select_congr`). A list of allowed fields confines what the conditions look at, and not the field of
the sort: a filter that is read under a list sees the allowed fields, the identifier and the field of its sort
(`Filter.select_decoded_congr`), and the last of them shows in the order of the items that are selected
(`Filter.select_sortedBy_reveals`).
-/

namespace Winnow

/-- Two values with the same values of the fields at some paths. -/
def Value.AgreeOn (paths : List String) (v w : Value) : Prop :=
  ∀ path ∈ paths, (v.resolve path).elements = (w.resolve path).elements

theorem Value.AgreeOn.mono {paths paths' : List String} {v w : Value} (h : v.AgreeOn paths w)
    (hsub : paths' ⊆ paths) : v.AgreeOn paths' w :=
  fun path hpath => h path (hsub hpath)

/-! ## Conditions -/

namespace Registry

variable {r : Registry} {v w : Value}

/-- A condition sees the values of its field, and neither the lists that they stand in nor the nulls between them. -/
theorem evaluate_congr (h : v.elements = w.elements) (c : Condition) : r.evaluate c v = r.evaluate c w := by
  have hrelated : r.Related Eq v w :=
    { refl := fun _ => rfl
      bind := fun hxy hfg => by rw [hxy, funext hfg]
      holds := fun _ _ => by rw [h]
      search := fun _ => by rw [h] }
  exact hrelated.evaluate c

/-- Statements see the fields of their queries; what a query inside a condition asks is asked of the values of those. -/
theorem matchesStatements_congr {statements : List (List Query)}
    (h : ∀ statement ∈ statements, ∀ q ∈ statement, v.AgreeOn (q.map (·.1)) w) :
    r.matchesStatements (Filter.statementsOf statements) v =
      r.matchesStatements (Filter.statementsOf statements) w := by
  rw [matchesStatements_statementsOf, matchesStatements_statementsOf]
  refine allPass_congr fun statement hstatement => anyPasses_congr fun q hq => ?_
  rw [matchesQuery_eq, matchesQuery_eq]
  exact allPass_congr fun p hp => evaluate_congr (h statement hstatement q hq p.1 (List.mem_map_of_mem hp)) p.2

end Registry

/-! ## Sorts -/

namespace Filter

variable {α : Type} {f : Filter} {r : Registry} {idField : String} {items : List α} {view view' : α → Value}

/-- The path of the field that items are ranked by before their identifier, if the filter sorts by one. -/
def sortPaths (f : Filter) (idField : String) : List String :=
  if f.hasSort idField then f.sortField.asText?.toList else []

/-- The rank of an item comes of the values of the sort field; the element and the property of a nested sort are looked
for inside them. -/
theorem sortValue_congr {v w : Value} (h : v.AgreeOn (f.sortPaths idField) w) :
    f.sortValue idField v = f.sortValue idField w := by
  unfold sortValue
  split
  · next hsort =>
    rw [sortPaths, if_pos hsort] at h
    unfold sortSource Value.resolveAt
    cases hpath : f.sortField.asText? with
    | none => rfl
    | some path =>
      have hfield : (v.resolve path).elements = (w.resolve path).elements := by
        rw [hpath] at h
        exact h path (List.mem_singleton.2 rfl)
      cases hnested : f.hasNestedSort with
      | true => simp only [ok_bind, hfield, ↓reduceIte]
      | false => simp [hfield]
  · rfl

theorem sortItems_congr (hid : ∀ x ∈ items, (view x).resolve idField = (view' x).resolve idField)
    (hsort : ∀ x ∈ items, (view x).AgreeOn (f.sortPaths idField) (view' x)) :
    f.sortItems idField view items = f.sortItems idField view' items := by
  have hkeys : (items.mapM fun x => return (← RankKey.of f idField (view x), x)) =
      (items.mapM fun x => return (← RankKey.of f idField (view' x), x) : Except Fault _) := by
    refine mapM_congr fun x hx => ?_
    rw [RankKey.of, RankKey.of, sortValue_congr (hsort x hx), hid x hx]
  rw [sortItems, sortItems, hkeys]

/-! ## Selections -/

/-- The items that match are among those that are given. -/
theorem subset_of_matching {found : List α} (h : f.matching r view items = .ok found) : found ⊆ items := by
  obtain ⟨accepted, haccepted⟩ := exists_accepts_of_matching h
  rw [matching_of_accepts haccepted] at h
  obtain rfl := Except.ok.inj h
  exact List.filter_subset_self items

theorem matching_congr (h : ∀ x ∈ items, f.accepts r (view x) = f.accepts r (view' x)) :
    f.matching r view items = f.matching r view' items := by
  induction items with
  | nil => rfl
  | cons x rest ih => rw [matching, matching, h x (.head _), ih fun y hy => h y (.tail _ hy)]

/-- A filter that looks at items at some paths at most, beside their identifier. -/
structure LooksAt (f : Filter) (idField : String) (paths : List String) : Prop where
  statements : ∃ statements, f.statements = statementsOf statements ∧
    ∀ statement ∈ statements, ∀ q ∈ statement, ∀ p ∈ q, p.1 ∈ paths
  sort : f.sortPaths idField ⊆ paths

/-- Items that agree on what a filter looks at are selected alike: the same ones of them, in the same order. -/
theorem select_congr {paths : List String} (hf : f.LooksAt idField paths)
    (hid : ∀ x ∈ items, (view x).resolve idField = (view' x).resolve idField)
    (hpaths : ∀ x ∈ items, (view x).AgreeOn paths (view' x)) :
    f.select r idField view items = f.select r idField view' items := by
  obtain ⟨statements, hstatements, hfields⟩ := hf.statements
  have hmatching : f.matching r view items = f.matching r view' items := by
    refine matching_congr fun x hx => ?_
    rw [accepts, accepts, hstatements]
    refine Registry.matchesStatements_congr fun statement hstatement q hq => (hpaths x hx).mono ?_
    exact fun path hpath => List.forall_mem_map.2 (hfields statement hstatement q hq) path hpath
  rw [select, select, ← hmatching]
  cases hfound : f.matching r view items with
  | error fault => rfl
  | ok found =>
    have hsub := subset_of_matching hfound
    have hsorted : f.sortItems idField view found = f.sortItems idField view' found :=
      sortItems_congr (fun x hx => hid x (hsub hx)) fun x hx => (hpaths x (hsub hx)).mono hf.sort
    rw [ok_bind, ok_bind, hsorted]

end Filter

/-! ## Filters that are read under a list of allowed fields -/

namespace Filter

variable {o : DecodeOptions} {allowed : List String} {data : Value} {f : Filter}

/-- A filter that is read looks at allowed fields and at that of its sort. -/
theorem looksAt_of_decode (ho : o.allowedFields = some allowed) (h : (decode o data).result = .ok f)
    (idField : String) : f.LooksAt idField (allowed ++ f.sortPaths idField) where
  statements := by
    have hinherited : Value.Inherited fun _ => True := ⟨fun _ _ _ => trivial, fun _ _ => trivial⟩
    have hbuilds : Decode.Builds o (fun _ => True) fun _ _ _ => True :=
      ⟨fun _ _ _ _ _ _ => trivial, fun _ => trivial, fun _ _ => trivial⟩
    obtain ⟨statements, hstatements, hpairs⟩ :=
      of_decode h (Decode.filter_yields_statements hinherited hbuilds trivial)
    refine ⟨statements, hstatements, fun statement hstatement q hq p hp => List.mem_append_left _ ?_⟩
    obtain ⟨⟨-, hallows⟩, -⟩ := hpairs statement hstatement q hq p hp
    rw [DecodeOptions.allows, ho] at hallows
    exact List.contains_iff_mem.1 hallows
  sort := List.subset_append_right _ _

/-- A list of allowed fields confines what a filter sees to the fields in the list, the identifier and the field of its
sort: items that agree on these are selected alike, whatever else they hold. -/
theorem select_decoded_congr (ho : o.allowedFields = some allowed) (h : (decode o data).result = .ok f) (r : Registry)
    (idField : String) {α : Type} {items : List α} {view view' : α → Value}
    (hid : ∀ x ∈ items, (view x).resolve idField = (view' x).resolve idField)
    (hallowed : ∀ x ∈ items, (view x).AgreeOn allowed (view' x))
    (hsort : ∀ x ∈ items, (view x).AgreeOn (f.sortPaths idField) (view' x)) :
    f.select r idField view items = f.select r idField view' items := by
  refine select_congr (looksAt_of_decode ho h idField) hid fun x hx path hpath => ?_
  rcases List.mem_append.1 hpath with hpath | hpath
  · exact hallowed x hx path hpath
  · exact hsort x hx path hpath

/-- The items that are not called b, by their rank, the greatest first. -/
def rankedData : Value :=
  .object [("statements", .list [.list [.list [
      .object [("field", .text "name"), ("op", .text "neq"), ("value", .text "b")]]]]),
    ("sort", .object [("field_id", .text "rank"), ("direction", .text "desc")])]

/-- The filter that the data is read as. -/
def byRankDown : Filter :=
  { statements := statementsOf [[[("name", .compare .neq (.text "b"))]]]
    sortField := .text "rank"
    direction := .desc }

/-- The names of items: the second is called b, the others a. -/
def letterOf (id : Int) : Value :=
  if id = 2 then .text "b" else .text "a"

/-- An item with its name, its rank and a note. -/
def noted (id : Int) : Value :=
  .object [("id", .int id), ("name", letterOf id), ("rank", .int (id * id)), ("note", .int id)]

/-- An item with its name in lists and its rank, without a note. -/
def unnoted (id : Int) : Value :=
  .object [("rank", .int (id * id)), ("name", .list [.null, .list [letterOf id]]), ("id", .int id)]

/-- The notes make no difference, and neither do the lists that the names stand in. -/
theorem select_decoded_congr_byRankDown :
    (decode { allowedFields := some ["name"] } rankedData).result = .ok byRankDown ∧
      byRankDown.sortPaths "id" = ["rank"] ∧
      (∀ id ∈ [1, 2, 3], (noted id).resolve "id" = (unnoted id).resolve "id") ∧
      (∀ id ∈ [1, 2, 3], (noted id).AgreeOn ["name"] (unnoted id)) ∧
      (∀ id ∈ [1, 2, 3], (noted id).AgreeOn ["rank"] (unnoted id)) ∧
      byRankDown.select (.standard .atStart) "id" noted [1, 2, 3] = .ok [3, 1] ∧
      byRankDown.select (.standard .atStart) "id" unnoted [1, 2, 3] = .ok [3, 1] := by
  have hdecode : (decode { allowedFields := some ["name"] } rankedData).result = .ok byRankDown := result_decode rfl
  have hid : ∀ id ∈ [1, 2, 3], (noted id).resolve "id" = (unnoted id).resolve "id" := by
    simp only [List.forall_mem_cons]
    exact ⟨rfl, rfl, rfl, nofun⟩
  have hname : ∀ id ∈ [1, 2, 3], (noted id).AgreeOn ["name"] (unnoted id) := by
    simp only [List.forall_mem_cons, Value.AgreeOn]
    exact ⟨⟨rfl, nofun⟩, ⟨rfl, nofun⟩, ⟨rfl, nofun⟩, nofun⟩
  have hrank : ∀ id ∈ [1, 2, 3], (noted id).AgreeOn ["rank"] (unnoted id) := by
    simp only [List.forall_mem_cons, Value.AgreeOn]
    exact ⟨⟨rfl, nofun⟩, ⟨rfl, nofun⟩, ⟨rfl, nofun⟩, nofun⟩
  have hselect : byRankDown.select (.standard .atStart) "id" noted [1, 2, 3] = .ok [3, 1] := rfl
  refine ⟨hdecode, rfl, hid, hname, hrank, hselect, ?_⟩
  rw [← select_decoded_congr rfl hdecode (.standard .atStart) "id" hid hname hrank, hselect]

end Filter

/-! ## What the order of items shows -/

/-- All items, by a field, as data. -/
def sortedBy (name : String) : Value :=
  .object [("sort", .object [("field_id", .text name)])]

/-- A sort by a field is read under any list of allowed fields. -/
theorem Filter.decode_sortedBy (o : DecodeOptions) (name : String) :
    (decode o (sortedBy name)).result = .ok { sortField := .text name } :=
  result_decode rfl

/-- An item with a whole number in a field beside its identifier. -/
def carrying (name : String) (id number : Int) : Value :=
  .object [("id", .int id), (name, .int number)]

section Carrying

variable {name : String} {id number number' : Int}

theorem resolve_carrying_id (name : String) (id number : Int) : (carrying name id number).resolve "id" = .int id := by
  rw [Value.resolve, (by decide +kernel : Path.parts "id" = ["id"])]
  rfl

theorem resolve_carrying (hname : Path.parts name = [name]) (hid : name ≠ "id") :
    (carrying name id number).resolve name = .int number := by
  rw [Value.resolve, hname]
  show Value.lookup name [("id", .int id), (name, .int number)] = .int number
  simp [Value.lookup, lookup_cons_eq_ite, hid]

/-- The number is not seen on paths that begin with another name. -/
theorem resolve_carrying_of_ne {path part : String} {rest : List String} (hpath : Path.parts path = part :: rest)
    (hpart : part ≠ name) : (carrying name id number).resolve path = (carrying name id number').resolve path := by
  have hlookup : Value.lookup part [("id", .int id), (name, .int number)] =
      Value.lookup part [("id", .int id), (name, .int number')] := by
    simp [Value.lookup, lookup_cons_eq_ite, hpart]
  rw [Value.resolve, Value.resolve, hpath]
  exact congrArg (Value.follow rest) hlookup

end Carrying

namespace Filter

variable {name : String}

theorem rankKey_carrying (hparts : Path.parts name = [name]) (hne : name ≠ "") (hid : name ≠ "id") (id number : Int) :
    RankKey.of { sortField := .text name } "id" (carrying name id number) = .ok ⟨.int number, .int id⟩ := by
  have hsort : hasSort { sortField := .text name } "id" = true := by
    simp [hasSort, Value.isGiven, Value.same, Value.sameScalar, Value.asQuantity?, Value.asText?, hne, hid]
  rw [RankKey.of, sortValue, if_pos hsort, Kind.sortSource_of_plain rfl rfl, resolve_carrying hparts hid,
    resolve_carrying_id]
  rfl

/-- Keys of whole numbers are in the order of the numbers, the second identifier being the lesser. -/
theorem before_wholeKeys (a b : Int) :
    RankKey.before .asc ⟨.int a, .int 2⟩ ⟨.int b, .int 1⟩ = .ok (decide (a < b)) := by
  have hvalues : rankOf (.int a) (.int b) = .ok (compare a b) := rankOf_form .whole a b
  have hids : rankOf (.int 2) (.int 1) = .ok .gt := rankOf_form .whole (2 : Int) (1 : Int)
  have hpresent (n : Int) : Value.int n ≠ .null := nofun
  rw [RankKey.before, RankKey.rank_of_ne_null (hpresent a) (hpresent b), hvalues, hids]
  cases hcompare : compare a b with
  | lt => simp [Except.bind, Direction.orient, compare_lt_iff_lt.1 hcompare]
  | eq => simp [Except.bind, Direction.orient, compare_eq_iff_eq.1 hcompare]
  | gt => simp [Except.bind, Direction.orient, (compare_gt_iff_gt.1 hcompare).le]

/-- Of two items the one with the lesser number is selected first. -/
theorem select_carrying (hparts : Path.parts name = [name]) (hne : name ≠ "") (hid : name ≠ "id") (r : Registry)
    (number : Int → Int) : select { sortField := .text name } r "id" (fun id => carrying name id (number id)) [1, 2] =
      .ok (if number 2 < number 1 then [2, 1] else [1, 2]) := by
  have hmatching : matching { sortField := .text name } r (fun id => carrying name id (number id)) [1, 2] =
      .ok [1, 2] := rfl
  have hsorted : sortItems { sortField := .text name } "id" (fun id => carrying name id (number id)) [1, 2] =
      .ok (if number 2 < number 1 then [2, 1] else [1, 2]) := by
    simp only [sortItems, List.mapM_cons, List.mapM_nil, rankKey_carrying hparts hne hid, ok_bind, pure_eq_ok,
      Sorting.sort, Sorting.leadingRun, before_wholeKeys]
    by_cases hlt : number 2 < number 1 <;> simp [hlt, Sorting.ascending, Sorting.descending, Sorting.insertAll]
  rw [select, hmatching, ok_bind, hsorted]
  split <;> rfl

/-- A sort by a field shows the order of the numbers in it, also where no allowed path begins with its name: there are
items that agree on their identifiers and on the allowed fields and are selected in another order. -/
theorem select_sortedBy_reveals (o : DecodeOptions) (allowed : List String) (hparts : Path.parts name = [name])
    (hne : name ≠ "") (hid : name ≠ "id")
    (hhidden : ∀ path ∈ allowed, ∃ part rest, Path.parts path = part :: rest ∧ part ≠ name) (r : Registry) :
    ∃ (f : Filter) (view view' : Int → Value),
      (decode { o with allowedFields := some allowed } (sortedBy name)).result = .ok f ∧
      (∀ id, (view id).resolve "id" = (view' id).resolve "id" ∧ (view id).AgreeOn allowed (view' id)) ∧
      f.select r "id" view [1, 2] = .ok [1, 2] ∧ f.select r "id" view' [1, 2] = .ok [2, 1] := by
  refine ⟨_, fun n => carrying name n n, fun n => carrying name n (3 - n), decode_sortedBy _ name, ?_, ?_, ?_⟩
  · refine fun n => ⟨by rw [resolve_carrying_id, resolve_carrying_id], fun path hpath => ?_⟩
    obtain ⟨part, rest, hpath, hpart⟩ := hhidden path hpath
    rw [resolve_carrying_of_ne hpath hpart]
  · exact select_carrying hparts hne hid r fun n => n
  · exact select_carrying hparts hne hid r fun n => 3 - n

/-- Under a list of names alone, two lists of items that differ in a secret only are selected in different orders. -/
theorem select_sortedBy_secret :
    (decode { allowedFields := some ["name"] } (sortedBy "secret")).result = .ok { sortField := .text "secret" } ∧
    (∀ id ∈ [1, 2], (carrying "secret" id id).resolve "id" = (carrying "secret" id (3 - id)).resolve "id" ∧
      (carrying "secret" id id).AgreeOn ["name"] (carrying "secret" id (3 - id))) ∧
    select { sortField := .text "secret" } (.standard .atStart) "id" (fun id => carrying "secret" id id) [1, 2] =
      .ok [1, 2] ∧
    select { sortField := .text "secret" } (.standard .atStart) "id" (fun id => carrying "secret" id (3 - id)) [1, 2] =
      .ok [2, 1] := by
  have hparts : Path.parts "secret" = ["secret"] := by decide +kernel
  have hname : Path.parts "name" = ["name"] := by decide +kernel
  refine ⟨decode_sortedBy _ _, fun id _ => ⟨?_, ?_⟩, ?_, ?_⟩
  · rw [resolve_carrying_id, resolve_carrying_id]
  · refine List.forall_mem_singleton.2 ?_
    rw [resolve_carrying_of_ne hname (by decide)]
  · exact select_carrying hparts (by decide) (by decide) _ fun n => n
  · exact select_carrying hparts (by decide) (by decide) _ fun n => 3 - n

end Filter

end Winnow
