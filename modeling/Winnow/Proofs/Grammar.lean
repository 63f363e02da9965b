import Winnow.Proofs.Accepted
import Winnow.Proofs.Translation

/-!
# The grammar of search bodies

What a search engine takes for a query, said of the plain data that is sent to it. `IsClause`, `IsFragment`,
`IsStatement` and `IsQuery` are the levels of the grammar, from a single clause to the whole query; nothing but JSON
stands in any of them. Whatever values a filter carries, as long as each has a form in a search body, what it is
translated to is in the grammar (`Translator.isQuery_build`).
-/

namespace Winnow

/-! ## Values with a form in a search body -/

namespace Value

/-- Values with a form in a search body: scalars, dates, identifiers, members of families whose content is JSON, and
sequences and objects of such values. -/
inductive HasForm : Value → Prop where
  | null : HasForm .null
  | bool (b : Bool) : HasForm (.bool b)
  | int (n : Int) : HasForm (.int n)
  | float (x : Binary64) : HasForm (.float x)
  | decimal (x : Decimal) : HasForm (.decimal x)
  | text (s : String) : HasForm (.text s)
  | date (d : Date) : HasForm (.date d)
  | datetime (t : DateTime) : HasForm (.datetime t)
  | time (t : ClockTime) : HasForm (.time t)
  | uuid (canonical : String) : HasForm (.uuid canonical)
  | operator (op : Operator) : HasForm (.operator op)
  | direction (d : Direction) : HasForm (.direction d)
  | symbol (family name : String) {content : Value} : content.IsJson → HasForm (.symbol family name content)
  | list {items : List Value} : (∀ v ∈ items, HasForm v) → HasForm (.list items)
  | tuple {items : List Value} : (∀ v ∈ items, HasForm v) → HasForm (.tuple items)
  | object {entries : List (String × Value)} : (∀ entry ∈ entries, HasForm entry.2) → HasForm (.object entries)

theorem isJson_searchableItems {items : List Value} (h : ∀ v ∈ items, v.searchable.IsJson) :
    ∀ v ∈ searchableItems items, v.IsJson := by
  induction items with
  | nil => exact List.forall_mem_nil _
  | cons v rest ih =>
    rw [searchableItems]
    exact List.forall_mem_cons.2 ⟨h v (.head _), ih fun w hw => h w (.tail _ hw)⟩

theorem isJson_searchableEntries {entries : List (String × Value)} (h : ∀ entry ∈ entries, entry.2.searchable.IsJson) :
    ∀ entry ∈ searchableEntries entries, entry.2.IsJson := by
  induction entries with
  | nil => exact List.forall_mem_nil _
  | cons entry rest ih =>
    obtain ⟨key, v⟩ := entry
    rw [searchableEntries]
    exact List.forall_mem_cons.2 ⟨h (key, v) (.head _), ih fun e he => h e (.tail _ he)⟩

/-- The form of a value in a search body is JSON. -/
theorem HasForm.searchable {v : Value} (h : v.HasForm) : v.searchable.IsJson := by
  induction h with
  | null => exact .null
  | bool b => exact .bool b
  | int n => exact .int n
  | float x => exact .float x
  | symbol _ _ hcontent => exact hcontent
  | list _ ih => exact .list (isJson_searchableItems ih)
  | tuple _ ih => exact .list (isJson_searchableItems ih)
  | object _ ih => exact .object (isJson_searchableEntries ih)
  | _ => exact .text trivial

end Value

/-- The operands that a search takes: values with a form in its body, and relative dates as bounds. -/
inductive Comparison.HasForm : Comparison → Value → Prop where
  | value {op : Comparison} {v : Value} : v.HasForm → HasForm op v
  | daysAgo (b : Bound) (days : Nat) : HasForm (.bound b) (.daysAgo days)

/-- Conditions whose comparisons have operands that a search takes. -/
def searchedShape : Shape where
  operand := Comparison.HasForm
  field := fun _ => True

/-! ## The grammar -/

open Clause (keyed)

/-- A list of clauses under a key, if there is one. -/
def listPart (key : String) : Option (List Value) → List (String × Value)
  | none => []
  | some clauses => [(key, .list clauses)]

/-- An object of the clauses that must match and of those that must not, each list present or absent. -/
def boolParts (filter mustNot : Option (List Value)) : Value :=
  .object (listPart "filter" filter ++ listPart "must_not" mustNot)

/-- A clause: an object of one key that says what is tested, with JSON for the values and clauses for the parts; of
several clauses the best is taken only when there are any. -/
inductive IsClause : Value → Prop where
  | term (field : String) {v : Value} : v.IsJson → IsClause (keyed "term" (keyed field v))
  | present (field : String) : IsClause (keyed "exists" (keyed "field" (.text field)))
  | range (field : String) (bound : Bound) {v : Value} :
      v.IsJson → IsClause (keyed "range" (keyed field (keyed bound.word v)))
  | startsWith (field : String) {v : Value} : v.IsJson → IsClause (keyed "prefix" (keyed field v))
  | nested (path : String) {filter mustNot : Option (List Value)} :
      (∀ c ∈ filter.getD [], IsClause c) → (∀ c ∈ mustNot.getD [], IsClause c) →
      IsClause (keyed "nested" (.object [("path", .text path), ("query", keyed "bool" (boolParts filter mustNot))]))
  | best {queries : List Value} :
      queries ≠ [] → (∀ c ∈ queries, IsClause c) → IsClause (keyed "dis_max" (keyed "queries" (.list queries)))
  | bool {filter mustNot : Option (List Value)} :
      (∀ c ∈ filter.getD [], IsClause c) → (∀ c ∈ mustNot.getD [], IsClause c) →
      IsClause (keyed "bool" (boolParts filter mustNot))

/-- A fragment: an object with no keys but those for what must match and for what must not, over lists of clauses. -/
inductive IsFragment : Value → Prop where
  | parts {filter mustNot : Option (List Value)} :
      (∀ c ∈ filter.getD [], IsClause c) → (∀ c ∈ mustNot.getD [], IsClause c) → IsFragment (boolParts filter mustNot)

/-- The clause of a statement: a fragment, or a choice between fragments, never one of a single one. -/
inductive IsStatement : Value → Prop where
  | sole {fragment : Value} : IsFragment fragment → IsStatement (keyed "bool" fragment)
  | choice {fragments : List Value} : fragments.length ≠ 1 → (∀ f ∈ fragments, IsFragment f) →
      IsStatement (keyed "bool" (.object [("minimum_should_match", .int 1),
        ("should", .list (fragments.map (keyed "bool")))]))

/-- The query of a search: the clause of a statement, or of all statements where there is not just one. -/
inductive IsQuery : Value → Prop where
  | sole {statement : Value} : IsStatement statement → IsQuery statement
  | every {statements : List Value} : statements.length ≠ 1 → (∀ s ∈ statements, IsStatement s) →
      IsQuery (keyed "bool" (.object [("filter", .list statements)]))

/-! ### Nothing but JSON -/

theorem isJson_keyed {key : String} {v : Value} (h : v.IsJson) : (keyed key v).IsJson :=
  .object (List.forall_mem_singleton.2 h)

theorem isJson_listPart {key : String} {clauses : Option (List Value)} (h : ∀ c ∈ clauses.getD [], c.IsJson) :
    ∀ entry ∈ listPart key clauses, entry.2.IsJson := by
  cases clauses with
  | none => exact List.forall_mem_nil _
  | some clauses => exact List.forall_mem_singleton.2 (.list h)

theorem isJson_boolParts {filter mustNot : Option (List Value)} (hfilter : ∀ c ∈ filter.getD [], c.IsJson)
    (hmustNot : ∀ c ∈ mustNot.getD [], c.IsJson) : (boolParts filter mustNot).IsJson := by
  refine .object fun entry hentry => ?_
  rcases List.mem_append.1 hentry with hentry | hentry
  · exact isJson_listPart hfilter entry hentry
  · exact isJson_listPart hmustNot entry hentry

/-- A clause is JSON throughout. -/
theorem IsClause.isJson {c : Value} (h : IsClause c) : c.IsJson := by
  induction h with
  | term _ hv => exact isJson_keyed (isJson_keyed hv)
  | present _ => exact isJson_keyed (isJson_keyed (.text trivial))
  | range _ _ hv => exact isJson_keyed (isJson_keyed (isJson_keyed hv))
  | startsWith _ hv => exact isJson_keyed (isJson_keyed hv)
  | nested _ _ _ ihfilter ihmustNot =>
    refine isJson_keyed (.object ?_)
    simp only [List.forall_mem_cons, List.not_mem_nil, false_implies, implies_true, and_true]
    exact ⟨.text trivial, isJson_keyed (isJson_boolParts ihfilter ihmustNot)⟩
  | best _ _ ih => exact isJson_keyed (isJson_keyed (.list ih))
  | bool _ _ ihfilter ihmustNot => exact isJson_keyed (isJson_boolParts ihfilter ihmustNot)

theorem IsFragment.isJson {f : Value} (h : IsFragment f) : f.IsJson := by
  obtain ⟨hfilter, hmustNot⟩ := h
  exact isJson_boolParts (fun c hc => (hfilter c hc).isJson) fun c hc => (hmustNot c hc).isJson

theorem IsStatement.isJson {s : Value} (h : IsStatement s) : s.IsJson := by
  cases h with
  | sole hfragment => exact isJson_keyed hfragment.isJson
  | choice _ hfragments =>
    refine isJson_keyed (.object ?_)
    simp only [List.forall_mem_cons, List.not_mem_nil, false_implies, implies_true, and_true]
    exact ⟨.int 1, .list (List.forall_mem_map.2 fun f hf => isJson_keyed (hfragments f hf).isJson)⟩

theorem IsQuery.isJson {q : Value} (h : IsQuery q) : q.IsJson := by
  cases h with
  | sole hstatement => exact hstatement.isJson
  | every _ hstatements =>
    exact isJson_keyed (.object (List.forall_mem_singleton.2 (.list fun s hs => (hstatements s hs).isJson)))

/-! ## Fragments in the grammar -/

theorem Clause.toValues_eq_map (clauses : List Clause) : toValues clauses = clauses.map toValue := by
  induction clauses with
  | nil => rfl
  | cons c rest ih => rw [toValues, ih, List.map_cons]

namespace Fragment

/-- Whether a fragment has a list of clauses of the grammar for what must match and for what must not. -/
structure InGrammar (f : Fragment Clause) : Prop where
  filter : ∀ c ∈ f.filter.getD [], IsClause c.toValue
  mustNot : ∀ c ∈ f.mustNot.getD [], IsClause c.toValue

/-- The two lists of a fragment as they stand in a search body. -/
theorem toValue_eq (f : Fragment Clause) :
    f.toValue = boolParts (f.filter.map (·.map Clause.toValue)) (f.mustNot.map (·.map Clause.toValue)) := by
  have hlist (key : String) (clauses : Option (List Clause)) :
      Clause.listEntries key clauses = listPart key (clauses.map (·.map Clause.toValue)) := by
    cases clauses with
    | none => rfl
    | some clauses => rw [Clause.listEntries, Clause.toValues_eq_map]; rfl
  obtain ⟨filter, mustNot⟩ := f
  rw [toValue, Clause.fragmentEntries, hlist, hlist, boolParts]

theorem forall_mem_getD_map {clauses : Option (List Clause)} (h : ∀ c ∈ clauses.getD [], IsClause c.toValue) :
    ∀ c ∈ (clauses.map (·.map Clause.toValue)).getD [], IsClause c := by
  cases clauses with
  | none => exact List.forall_mem_nil _
  | some clauses => exact List.forall_mem_map.2 h

namespace InGrammar

variable {f g : Fragment Clause}

theorem isFragment (h : f.InGrammar) : IsFragment f.toValue := by
  rw [toValue_eq]
  exact .parts (forall_mem_getD_map h.filter) (forall_mem_getD_map h.mustNot)

/-- A fragment as one clause. -/
theorem isClause_bool (h : f.InGrammar) : IsClause (Clause.bool f).toValue := by
  rw [Clause.toValue, ← toValue, toValue_eq]
  exact .bool (forall_mem_getD_map h.filter) (forall_mem_getD_map h.mustNot)

/-- A fragment on the elements of a collection. -/
theorem isClause_nested (h : f.InGrammar) (path : String) : IsClause (Clause.nested path f).toValue := by
  rw [Clause.toValue, ← toValue, toValue_eq]
  exact .nested path (forall_mem_getD_map h.filter) (forall_mem_getD_map h.mustNot)

theorem empty : InGrammar {} :=
  ⟨List.forall_mem_nil _, List.forall_mem_nil _⟩

theorem must {c : Clause} (h : IsClause c.toValue) : (must c).InGrammar :=
  ⟨List.forall_mem_singleton.2 h, List.forall_mem_nil _⟩

theorem exclude {c : Clause} (h : IsClause c.toValue) : (exclude c).InGrammar :=
  ⟨List.forall_mem_nil _, List.forall_mem_singleton.2 h⟩

/-- Fragments in the grammar are in it together. -/
theorem merge (hf : f.InGrammar) (hg : g.InGrammar) : (f.merge g).InGrammar := by
  constructor
  · rw [Fragment.merge, getD_mergeLists]
    exact List.forall_mem_append.2 ⟨hf.filter, hg.filter⟩
  · rw [Fragment.merge, getD_mergeLists]
    exact List.forall_mem_append.2 ⟨hf.mustNot, hg.mustNot⟩

theorem mergeAll {fragments : List (Fragment Clause)} (h : ∀ f ∈ fragments, f.InGrammar) :
    (mergeAll fragments).InGrammar :=
  mergeAll_induction empty (fun _ _ => merge) h

/-- The alternatives that a fragment is split into are clauses. -/
theorem alternatives (h : f.InGrammar) : ∀ c ∈ f.alternatives, IsClause c.toValue := by
  unfold Fragment.alternatives
  split
  · exact h.filter
  · exact List.forall_mem_singleton.2 h.isClause_bool

end InGrammar

/-- A fragment always stands for some alternative: an empty one is an alternative of its own. -/
theorem alternatives_ne_nil (f : Fragment Clause) : f.alternatives ≠ [] := by
  unfold alternatives
  split
  · exact List.cons_ne_nil _ _
  · exact List.cons_ne_nil _ _

end Fragment

/-! ## What conditions are translated to -/

theorem Comparison.HasForm.isJson_rangeOperand {b : Bound} {v limit : Value} (h : (Comparison.bound b).HasForm v)
    (hlimit : rangeOperand v = some limit) : limit.IsJson := by
  cases h with
  | daysAgo _ days =>
    obtain ⟨text, -, rfl⟩ := Option.map_eq_some_iff.1 hlimit
    exact .text trivial
  | value hv =>
    have hjson := hv.searchable
    cases hv with
    | _ => exact Option.some.inj hlimit ▸ hjson

/-- A comparison is translated to one clause, that it must match or must not. -/
theorem Comparison.inGrammar_translate {op : Comparison} {v : Value} (h : op.HasForm v) {field : String}
    {f : Fragment Clause} (hf : op.translate field v = some f) : f.InGrammar := by
  have hform (hop : ∀ b, op ≠ .bound b) : v.searchable.IsJson := by
    cases h with
    | value hv => exact hv.searchable
    | daysAgo b days => exact absurd rfl (hop b)
  unfold Comparison.translate at hf
  split at hf
  case h_5 =>
    obtain ⟨limit, hlimit, rfl⟩ := Option.map_eq_some_iff.1 hf
    exact .must (.range field _ (h.isJson_rangeOperand hlimit))
  all_goals cases hf
  · exact .exclude (.present field)
  · exact .must (.term field (hform nofun))
  · exact .must (.present field)
  · exact .exclude (.term field (hform nofun))
  · exact .must (.startsWith field (hform nofun))

/-- The fragment of a comparison is in the grammar. -/
theorem Comparison.inGrammar_fragment {op : Comparison} {v : Value} (h : op.HasForm v) (field : String) :
    (op.fragment field v).InGrammar := by
  rcases translate_eq op field v with ⟨-, htranslate⟩ | ⟨-, htranslate⟩
  · exact inGrammar_translate h htranslate
  · rw [fragment, htranslate]
    exact .empty

variable {m : FieldMap}

/-- The fragment of a query is in the grammar when those of its conditions are. -/
theorem Query.inGrammar_fragment {q : Query} (h : ∀ p ∈ q, ∀ field, (p.2.fragment m field).InGrammar) (path : String) :
    (Query.fragment m path q).InGrammar :=
  .mergeAll (List.forall_mem_map.2 fun p hp => h p hp _)

/-- The fragment of a condition is in the grammar. -/
theorem Condition.inGrammar_fragment {c : Condition} (hc : c.Has searchedShape) (field : String) :
    (c.fragment m field).InGrammar := by
  induction hc generalizing field with
  | compare hoperand => exact Comparison.inGrammar_fragment hoperand field
  | @combine op members _ _ ih =>
    cases op with
    | all =>
      rw [fragment_all]
      exact .mergeAll (List.forall_mem_map.2 fun c hc => ih c hc field)
    | any =>
      rw [fragment_any]
      cases members with
      | nil => exact ⟨List.forall_mem_nil _, List.forall_mem_nil _⟩
      | cons first rest =>
        -- Every member has an alternative, so there is a best one.
        have hsome : ((first :: rest).map (Condition.fragment m field)).flatMap Fragment.alternatives ≠ [] := by
          rw [List.map_cons, List.flatMap_cons]
          exact List.append_ne_nil_of_left_ne_nil (Fragment.alternatives_ne_nil _) _
        refine .must ?_
        rw [Clause.toValue, Clause.toValues_eq_map]
        refine .best (List.map_eq_nil_iff.not.2 hsome) (List.forall_mem_map.2 ?_)
        intro c hc
        obtain ⟨f, hf, hc⟩ := List.mem_flatMap.1 hc
        obtain ⟨d, hd, rfl⟩ := List.mem_map.1 hf
        exact (ih d hd field).alternatives c hc
  | @nested op pairs _ _ ih =>
    cases op with
    | find =>
      rw [fragment_find]
      exact .must ((Query.inGrammar_fragment ih field).isClause_nested field)
    | nfind =>
      rw [fragment_nfind]
      exact .exclude ((Query.inGrammar_fragment ih field).isClause_nested field)

/-! ## What statements are translated to -/

/-- The clause of a statement is one of the grammar. -/
theorem isStatement_statementOf {statement : List Query} (h : ∀ q ∈ statement, ∀ p ∈ q, p.2.Has searchedShape) :
    IsStatement (Translator.statementOf m statement).toValue := by
  have hfragments : ∀ f ∈ statement.map (Query.fragment m ""), f.InGrammar :=
    List.forall_mem_map.2 fun q hq =>
      Query.inGrammar_fragment (fun p hp => Condition.inGrammar_fragment (h q hq p hp)) ""
  unfold Translator.statementOf Translator.statementClause
  split
  · next f hsole =>
    rw [hsole] at hfragments
    exact .sole (hfragments f (.head _)).isFragment
  · next hnot =>
    rw [Clause.toValue, Clause.toValues_eq_map, List.map_map]
    have hlength : (statement.map (Query.fragment m "")).length ≠ 1 := by
      intro hone
      obtain ⟨f, hf⟩ := List.length_eq_one_iff.1 hone
      exact hnot f hf
    have hvalues : ((statement.map (Query.fragment m "")).map Fragment.toValue).length ≠ 1 := by
      rwa [List.length_map]
    have hchoice := IsStatement.choice hvalues (List.forall_mem_map.2 fun f hf => (hfragments f hf).isFragment)
    rwa [List.map_map] at hchoice

/-- Clauses of statements are together a query of the grammar. -/
theorem isQuery_every {clauses : List Clause} (h : ∀ c ∈ clauses, IsStatement c.toValue) :
    IsQuery (Clause.every clauses).toValue := by
  unfold Clause.every
  split
  · exact .sole (h _ (.head _))
  · next hnot =>
    have hlength : (clauses.map Clause.toValue).length ≠ 1 := by
      rw [List.length_map]
      intro hone
      obtain ⟨c, hc⟩ := List.length_eq_one_iff.1 hone
      exact hnot c hc
    have hquery := IsQuery.every hlength (List.forall_mem_map.2 h)
    rw [← Clause.toValues_eq_map] at hquery
    exact hquery

namespace Translator

variable {t : Translator} {f : Filter}

/-- A clause of a sort is JSON when the value that elements are filtered by is. -/
theorem isJson_sortClause {order missing : Value} (horder : order.IsJson) (hmissing : missing.IsJson)
    {nested : List (String × Value)} (hnested : ∀ entry ∈ nested, entry.2.IsJson) (field : String) :
    (keyed field (.object ([("order", order), ("missing", missing)] ++ nested))).IsJson :=
  isJson_keyed (.object (List.forall_mem_append.2
    ⟨List.forall_mem_cons.2 ⟨horder, List.forall_mem_singleton.2 hmissing⟩, hnested⟩))

/-- The clause of the sort field is JSON. -/
theorem isJson_primarySort (hsub : f.subId.HasForm) :
    (t.primarySort f).Yields fun clause => clause.toValue.IsJson := by
  have hfilter (path : String) : (keyed "term" (keyed path f.subId.searchable)).IsJson :=
    isJson_keyed (isJson_keyed hsub.searchable)
  unfold primarySort
  split
  · refine (Logged.Yields.any _).bind fun outer _ => (Logged.Yields.any _).bind fun inner _ => ?_
    refine (Logged.Yields.any _).bind fun field _ => ?_
    refine (Logged.Yields.any _).bind fun path _ => ?_
    refine (Logged.Yields.any _).bind fun filterField _ => .pure ?_
    refine isJson_sortClause (.text trivial) (.text trivial) ?_ field
    have hpath : (Value.text path).IsJson := .text trivial
    cases t.nestedSortStyle with
    | legacy => exact List.forall_mem_cons.2 ⟨hpath, List.forall_mem_singleton.2 (hfilter filterField)⟩
    | nested =>
      refine List.forall_mem_singleton.2 (.object ?_)
      exact List.forall_mem_cons.2 ⟨hpath, List.forall_mem_singleton.2 (hfilter filterField)⟩
  · refine (Logged.Yields.any _).bind fun field _ => .pure ?_
    exact isJson_sortClause (.text trivial) (.text trivial) (List.forall_mem_nil _) field

/-- The clauses of the sort of a filter are JSON. -/
theorem isJson_translateSort (hsub : f.subId.HasForm) :
    (t.translateSort f).Yields fun sort => ∀ clause ∈ sort, clause.toValue.IsJson := by
  have htie : (SortClause.byId t.idField f.direction).toValue.IsJson := isJson_keyed (isJson_keyed (.text trivial))
  unfold translateSort
  split
  · refine (isJson_primarySort hsub).bind fun clause hclause => .pure ?_
    exact List.forall_mem_cons.2 ⟨hclause, List.forall_mem_singleton.2 htie⟩
  · exact .pure (List.forall_mem_singleton.2 htie)

/-- What a filter is translated to is in the grammar: every fragment of a condition is one, and the body of a search has
a query, a size and a sort, the query being one of the grammar and nothing but JSON standing in it and in the sort. -/
theorem isQuery_build {statements : List (List Query)} (hstatements : f.statements = Filter.statementsOf statements)
    (hsearched : ∀ statement ∈ statements, ∀ q ∈ statement, ∀ p ∈ q, p.2.Has searchedShape) (hsub : f.subId.HasForm) :
    (∀ c : Condition, c.Has searchedShape → ∀ field fragment, (t.translate field c).result = .ok fragment →
      IsFragment fragment.toValue) ∧
    ∀ body, (t.build f).result = .ok body → ∃ query sort,
      body.toValue = .object [("query", query), ("size", f.limit), ("sort", .list sort)] ∧ IsQuery query ∧
        query.IsJson ∧ ∀ clause ∈ sort, clause.IsJson := by
  constructor
  · intro c hc field fragment hfragment
    obtain ⟨name, hname, hfragment⟩ := Logged.result_bind_eq_ok hfragment
    obtain ⟨rfl, -⟩ := yields_translateOn hc name 0 fragment hfragment
    exact (Condition.inGrammar_fragment hc name).isFragment
  · intro body hbody
    obtain ⟨hquery, hsort, hsize, -⟩ := build_eq_ok hbody
    rw [hstatements] at hquery
    obtain ⟨clauses, ⟨rfl, -⟩, hevery⟩ := yields_translateStatements (yields_translateEach hsearched) body.query hquery
    have hgrammar : IsQuery body.query.toValue := by
      rw [hevery]
      exact isQuery_every (List.forall_mem_map.2 fun statement hstatement =>
        isStatement_statementOf (hsearched statement hstatement))
    refine ⟨body.query.toValue, body.sort.map SortClause.toValue, ?_, hgrammar, hgrammar.isJson,
      List.forall_mem_map.2 (isJson_translateSort hsub body.sort hsort)⟩
    rw [SearchBody.toValue, hsize]

/-- Seen after a day and more than a week ago or never, without an item of a price; and an alternative of none. -/
def pricedOrUnseen : List (List Query) :=
  [[[("seen", .combine .any ([
        .combine .all ([.within .gt (.date { year := 2019, month := 4, day := 17 }),
          .within .lt (.daysAgo 7)].map .condition),
        .eq .null].map .condition)),
      ("items", .nfind [("price", .eq (.tuple [.decimal (.finite false 150 (-2)),
        .symbol "Currency" "EURO" (.text "EUR")]))])]],
    []]

/-- What is asked for when they are translated: alternatives of two bounds and of a fragment, a list of texts, and a
choice between no fragments. -/
def pricedOrUnseenQuery : Value :=
  keyed "bool" (.object [("filter", .list [
    keyed "bool" (.object [
      ("filter", .list [keyed "dis_max" (keyed "queries" (.list [
        keyed "range" (keyed "seen" (keyed "gt" (.text "2019-04-17"))),
        keyed "range" (keyed "seen" (keyed "lt" (.text "now-7d/d"))),
        keyed "bool" (.object [("must_not", .list [keyed "exists" (keyed "field" (.text "seen"))])])]))]),
      ("must_not", .list [keyed "nested" (.object [("path", .text "items"), ("query", keyed "bool" (.object [
        ("filter", .list [keyed "term" (keyed "items.price" (.list [.text "1.50", .text "EUR"]))])]))])])]),
    keyed "bool" (.object [("minimum_should_match", .int 1), ("should", .list [])])])])

theorem searched_pricedOrUnseen :
    ∀ statement ∈ pricedOrUnseen, ∀ q ∈ statement, ∀ p ∈ q, p.2.Has searchedShape := by
  have hprice : (Value.tuple [.decimal (.finite false 150 (-2)), .symbol "Currency" "EURO" (.text "EUR")]).HasForm :=
    .tuple (List.forall_mem_cons.2 ⟨.decimal _, List.forall_mem_singleton.2 (.symbol _ _ (.text trivial))⟩)
  have hitems : (Condition.nfind [("price", .eq (.tuple [.decimal (.finite false 150 (-2)),
      .symbol "Currency" "EURO" (.text "EUR")]))]).Has searchedShape :=
    Condition.has_nested_iff.2 (List.forall_mem_singleton.2 ⟨trivial, .compare (.value hprice)⟩)
  have hbetween : (Condition.combine .all ([.within .gt (.date { year := 2019, month := 4, day := 17 }),
      .within .lt (.daysAgo 7)].map .condition)).Has searchedShape := by
    refine Condition.has_combine_iff.2
      (List.forall_mem_cons.2 ⟨⟨trivial, ?_⟩, List.forall_mem_singleton.2 ⟨trivial, ?_⟩⟩)
    · exact .compare (.value (.date _))
    · exact .compare (.daysAgo .lt 7)
  simp only [pricedOrUnseen, List.forall_mem_cons, List.not_mem_nil, false_implies, implies_true, and_true]
  refine ⟨Condition.has_combine_iff.2 ?_, hitems⟩
  exact List.forall_mem_cons.2 ⟨⟨trivial, hbetween⟩, List.forall_mem_singleton.2 ⟨trivial, .compare (.value .null)⟩⟩

/-- Dates, decimals and members of families stand in the body as texts. -/
theorem isQuery_build_priced :
    ∃ body sort, (build {} { statements := Filter.statementsOf pricedOrUnseen }).result = .ok body ∧
      body.toValue = .object [("query", pricedOrUnseenQuery), ("size", .int 10), ("sort", .list sort)] ∧
      IsQuery pricedOrUnseenQuery ∧ pricedOrUnseenQuery.IsJson ∧ ∀ clause ∈ sort, clause.IsJson := by
  obtain ⟨-, hbuild⟩ := isQuery_build (t := {}) (f := { statements := Filter.statementsOf pricedOrUnseen }) rfl
    searched_pricedOrUnseen .null
  obtain ⟨query, sort, hvalue, hgrammar⟩ := hbuild _ rfl
  have hquery : query = pricedOrUnseenQuery := by
    injection hvalue with hentries
    injection hentries with hentry
    injection hentry with _ hvalue
    rw [← hvalue]
    rfl
  subst hquery
  exact ⟨_, sort, rfl, hvalue, hgrammar⟩

end Translator

end Winnow
