import Winnow.Proofs.Accepted
import Winnow.Proofs.Translation

/-!
# Fields that a search names

A filter that is read under a list of allowed paths never leads a search to another field. Reading checks the path of a
field with those of the collections around it in front; a translation builds the paths of its clauses anew, and under an
identity map comes to the same ones. `Clause.fields` are the fields that a clause names at any depth, and
`Translator.fields_build_decoded` says that those of the query of a search body are all allowed.
-/

namespace Winnow

/-! ## The fields of clauses -/

mutual

/-- The fields that a clause names, the paths of collections among them. -/
def Clause.fields : Clause → List String
  | .term field _ => [field]
  | .present field => [field]
  | .range field _ _ => [field]
  | .startsWith field _ => [field]
  | .nested path query => path :: fieldsOfFragment query
  | .best queries => fieldsOfClauses queries
  | .bool fragment => fieldsOfFragment fragment
  | .anyOf should => fieldsOfClauses should
termination_by structural c => c

/-- The fields that the clauses of a fragment name. -/
def fieldsOfFragment : Fragment Clause → List String
  | ⟨filter, mustNot⟩ => fieldsOfList filter ++ fieldsOfList mustNot
termination_by structural f => f

/-- The fields that the clauses of a list name, none when the list is absent. -/
def fieldsOfList : Option (List Clause) → List String
  | none => []
  | some clauses => fieldsOfClauses clauses
termination_by structural clauses => clauses

/-- The fields that some clauses name. -/
def fieldsOfClauses : List Clause → List String
  | [] => []
  | c :: rest => c.fields ++ fieldsOfClauses rest
termination_by structural clauses => clauses

end

/-- The fields that a fragment names. -/
def Fragment.fields (f : Fragment Clause) : List String :=
  fieldsOfFragment f

theorem mem_fieldsOfClauses {name : String} {clauses : List Clause} :
    name ∈ fieldsOfClauses clauses ↔ ∃ c ∈ clauses, name ∈ c.fields := by
  induction clauses with
  | nil => simp [fieldsOfClauses]
  | cons c rest ih => simp [fieldsOfClauses, ih]

theorem fieldsOfClauses_append (clauses others : List Clause) :
    fieldsOfClauses (clauses ++ others) = fieldsOfClauses clauses ++ fieldsOfClauses others := by
  induction clauses with
  | nil => rfl
  | cons c rest ih => simp [fieldsOfClauses, ih]

namespace Fragment

variable {name : String}

theorem mem_fieldsOfList_mergeLists {xs ys : Option (List Clause)} :
    name ∈ fieldsOfList (mergeLists xs ys) ↔ name ∈ fieldsOfList xs ∨ name ∈ fieldsOfList ys := by
  rcases xs with _ | xs <;> rcases ys with _ | ys <;> simp [mergeLists, fieldsOfList, fieldsOfClauses_append]

/-- Fragments together name the fields that each of them names. -/
theorem mem_fields_merge {f g : Fragment Clause} : name ∈ (f.merge g).fields ↔ name ∈ f.fields ∨ name ∈ g.fields := by
  obtain ⟨filter, mustNot⟩ := f
  obtain ⟨filter', mustNot'⟩ := g
  simp only [fields, merge, fieldsOfFragment, List.mem_append, mem_fieldsOfList_mergeLists]
  exact or_or_or_comm

theorem fields_must (c : Clause) : (must c).fields = c.fields := by
  simp [must, fields, fieldsOfFragment, fieldsOfList, fieldsOfClauses]

theorem fields_exclude (c : Clause) : (exclude c).fields = c.fields := by
  simp [exclude, fields, fieldsOfFragment, fieldsOfList, fieldsOfClauses]

/-- The alternatives that a fragment is split into name the fields that it names. -/
theorem fieldsOfClauses_alternatives (f : Fragment Clause) : fieldsOfClauses f.alternatives = f.fields := by
  unfold alternatives
  split
  · simp [fields, fieldsOfFragment, fieldsOfList]
  · simp [fields, fieldsOfClauses, Clause.fields]

end Fragment

/-- A comparison is translated to a clause on its field. -/
theorem Comparison.fields_translate {op : Comparison} {field : String} {operand : Value} {f : Fragment Clause}
    (h : op.translate field operand = some f) : f.fields = [field] := by
  unfold translate at h
  split at h
  case h_5 =>
    obtain ⟨limit, -, rfl⟩ := Option.map_eq_some_iff.1 h
    simp [Fragment.fields_must, Clause.fields]
  all_goals
    cases h
    simp [Fragment.fields_must, Fragment.fields_exclude, Clause.fields]

/-- The fragment of a comparison names its field, and no other. -/
theorem Comparison.eq_of_mem_fields {op : Comparison} {field : String} {operand : Value} {name : String}
    (h : name ∈ (op.fragment field operand).fields) : name = field := by
  rcases translate_eq op field operand with ⟨-, htranslate⟩ | ⟨-, htranslate⟩
  · rw [fields_translate htranslate] at h
    exact List.mem_singleton.1 h
  · rw [fragment, htranslate] at h
    cases h

/-! ## Translations that keep to the allowed fields -/

/-- Whether every one of some fields is allowed. -/
def DecodeOptions.AllowsAll (o : DecodeOptions) (names : List String) : Prop :=
  ∀ name ∈ names, o.allows name = true

namespace Translator

variable {t : Translator} {o : DecodeOptions}

theorem allowsAll_empty : o.AllowsAll [] := by
  intro name hname
  cases hname

theorem allowsAll_merge {f g : Fragment Clause} (hf : o.AllowsAll f.fields) (hg : o.AllowsAll g.fields) :
    o.AllowsAll (f.merge g).fields := by
  intro name hname
  rcases Fragment.mem_fields_merge.1 hname with hname | hname
  · exact hf name hname
  · exact hg name hname

theorem allowsAll_mergeAll {fragments : List (Fragment Clause)} (h : ∀ f ∈ fragments, o.AllowsAll f.fields) :
    o.AllowsAll (Fragment.mergeAll fragments).fields :=
  Fragment.mergeAll_induction (P := fun f => o.AllowsAll f.fields) allowsAll_empty (fun _ _ => allowsAll_merge) h

theorem allowsAll_fieldsOfClauses {clauses : List Clause} (h : ∀ c ∈ clauses, o.AllowsAll c.fields) :
    o.AllowsAll (fieldsOfClauses clauses) := by
  intro name hname
  obtain ⟨c, hc, hname⟩ := mem_fieldsOfClauses.1 hname
  exact h c hc name hname

/-- The alternatives of fragments on allowed fields are clauses on allowed fields. -/
theorem allowsAll_flatMap_alternatives {fragments : List (Fragment Clause)}
    (h : ∀ f ∈ fragments, o.AllowsAll f.fields) :
    o.AllowsAll (fieldsOfClauses (fragments.flatMap Fragment.alternatives)) := by
  refine allowsAll_fieldsOfClauses fun c hc name hname => ?_
  obtain ⟨f, hf, hc⟩ := List.mem_flatMap.1 hc
  refine h f hf name ?_
  rw [← Fragment.fieldsOfClauses_alternatives]
  exact mem_fieldsOfClauses.2 ⟨c, hc, hname⟩

/-- The fragment of a query keeps to the allowed fields when that of each condition does on its path. -/
theorem allowsAll_queryFragment {path : String} {pairs : Query}
    (h : ∀ p ∈ pairs, o.AllowsAll (p.2.fragment .identity (Path.inside path p.1)).fields) :
    o.AllowsAll (Query.fragment .identity path pairs).fields := by
  refine allowsAll_mergeAll (List.forall_mem_map.2 fun p hp => ?_)
  rw [FieldMap.nameOf_identity]
  exact h p hp

/-- The fragment of an accepted condition on an allowed path keeps to the allowed fields. The path is not empty, so the
fields of a query inside are checked under the very paths that they are translated on. -/
theorem allowsAll_fragment {room : Nat} {path : String} {c : Condition} (hc : c.Accepted o room path)
    (hnamed : path ≠ "") (hallowed : o.allows path = true) : o.AllowsAll (c.fragment .identity path).fields := by
  induction hc with
  | @compare room path op operand _ =>
    intro name hname
    rw [Comparison.eq_of_mem_fields hname]
    exact hallowed
  | @combine room path op members _ ih =>
    have hmembers : ∀ f ∈ members.map (Condition.fragment .identity path), o.AllowsAll f.fields :=
      List.forall_mem_map.2 fun c hc => ih c hc hnamed hallowed
    cases op with
    | all =>
      rw [Condition.fragment_all]
      exact allowsAll_mergeAll hmembers
    | any =>
      rw [Condition.fragment_any]
      split
      · exact allowsAll_empty
      · rw [Fragment.fields_must]
        exact allowsAll_flatMap_alternatives hmembers
  | @nested room path op pairs hfields _ ih =>
    have hquery : o.AllowsAll (Query.fragment .identity path pairs).fields := by
      refine allowsAll_queryFragment fun p hp => ?_
      rw [Path.inside_eq_join hnamed]
      exact ih p hp (Path.join_ne_empty path p.1) (hfields p hp).2
    have hnested : o.AllowsAll (Clause.nested path (Query.fragment .identity path pairs)).fields :=
      List.forall_mem_cons.2 ⟨hallowed, hquery⟩
    cases op with
    | find =>
      rw [Condition.fragment_find, Fragment.fields_must]
      exact hnested
    | nfind =>
      rw [Condition.fragment_nfind, Fragment.fields_exclude]
      exact hnested

/-! ## Filters -/

/-- The clause of a statement names the fields that its fragments name. -/
theorem allowsAll_statementClause {fragments : List (Fragment Clause)} (h : ∀ f ∈ fragments, o.AllowsAll f.fields) :
    o.AllowsAll (statementClause fragments).fields := by
  unfold statementClause
  split
  · exact h _ (.head _)
  · exact allowsAll_fieldsOfClauses (List.forall_mem_map.2 h)

/-- The clause that asks for all of some clauses names the fields that they name. -/
theorem allowsAll_every {clauses : List Clause} (h : ∀ c ∈ clauses, o.AllowsAll c.fields) :
    o.AllowsAll (Clause.every clauses).fields := by
  unfold Clause.every
  split
  · exact h _ (.head _)
  · intro name hname
    have hmem : name ∈ fieldsOfClauses clauses ++ [] := hname
    rw [List.append_nil] at hmem
    exact allowsAll_fieldsOfClauses h name hmem

/-- The statements of an accepted filter are translated to a clause on allowed fields. -/
theorem translateStatements_yields (hmap : t.fieldMap = .identity) {f : Filter} (hf : f.Accepted o) :
    (t.translateStatements f.statements).Yields fun c => o.AllowsAll c.fields := by
  obtain ⟨statements, hstatements, hpairs⟩ := hf.statements
  have hshape : ∀ statement ∈ statements, ∀ q ∈ statement, ∀ p ∈ q, p.2.Has Condition.acceptedShape :=
    fun statement hstatement q hq p hp => (hpairs statement hstatement q hq p hp).condition.has
  rw [hstatements]
  intro c hc
  obtain ⟨clauses, ⟨rfl, -⟩, rfl⟩ := yields_translateStatements (yields_translateEach hshape) c hc
  refine allowsAll_every (List.forall_mem_map.2 fun statement hstatement => ?_)
  refine allowsAll_statementClause (List.forall_mem_map.2 fun q hq => ?_)
  rw [hmap]
  refine allowsAll_queryFragment fun p hp => ?_
  obtain ⟨hnamed, hallowed, hcondition⟩ := hpairs statement hstatement q hq p hp
  exact allowsAll_fragment hcondition hnamed hallowed

/-- The list of allowed fields bounds the search: whatever data is read as a filter under a list of allowed paths, the
query of its search body names no field but those in the list. -/
theorem fields_build_decoded (hmap : t.fieldMap = .identity) {allowed : List String}
    (ho : o.allowedFields = some allowed) {data : Value} (hdata : data.IsJson) {f : Filter}
    (h : (Filter.decode o data).result = .ok f) {body : SearchBody} (hbody : (t.build f).result = .ok body) :
    ∀ name ∈ body.query.fields, name ∈ allowed := by
  have hbuild : (t.build f).Yields fun body => o.AllowsAll body.query.fields := by
    refine (translateStatements_yields hmap (Filter.accepted_of_decode hdata h)).bind fun query hquery => ?_
    refine (Logged.Yields.any _).bind fun sort _ => (Logged.Yields.any _).bind fun size _ => ?_
    exact (Logged.Yields.any _).bind fun _ _ => .pure hquery
  intro name hname
  have hallows := hbuild body hbody name hname
  rw [DecodeOptions.allows, ho] at hallows
  exact List.contains_iff_mem.1 hallows

/-- A collection asked, in one of two ways, for an element without a page and with a named tag. -/
def taggedData : Value :=
  Filter.soleData "visits" "ANY" (.list [
    .object [("op", .text "FIND"), ("value", .list [
      .object [("field", .text "page"), ("op", .text "EQ")],
      .object [("field", .text "tags"), ("op", .text "ALL"), ("value", .list [
        .object [("op", .text "NFIND"), ("value", .list [
          .object [("field", .text "name"), ("op", .text "PREFIX"), ("value", .text "a")]])]])]])],
    .object [("op", .text "EQ")]])

/-- The paths that the tagged data needs. -/
def taggedPaths : List String :=
  ["visits", "visits.page", "visits.tags", "visits.tags.name"]

/-- The filter that the tagged data is read as. -/
def taggedFilter : Filter :=
  { statements := Filter.statementsOf [[[("visits", .combine .any ([
      .find [("page", .eq .null), ("tags", .combine .all ([
        .nfind [("name", .compare .startsWith (.text "a"))]].map .condition))],
      .eq .null].map .condition))]]] }

/-- All the paths are needed, and no others. -/
theorem fields_build_decoded_tagged :
    taggedData.IsJson ∧ (Filter.decode { allowedFields := some taggedPaths } taggedData).result = .ok taggedFilter ∧
      ∃ body, (build {} taggedFilter).result = .ok body ∧
        body.query.fields = ["visits", "visits.page", "visits.tags", "visits.tags.name", "visits"] ∧
        ∀ name ∈ body.query.fields, name ∈ taggedPaths := by
  have hdata : taggedData.IsJson := by
    simp [taggedData, Filter.soleData, Value.isJsonOf_object_iff, Value.isJsonOf_list_iff, Value.IsJsonOf.text]
  have hdecode : (Filter.decode { allowedFields := some taggedPaths } taggedData).result = .ok taggedFilter :=
    Filter.result_decode rfl
  refine ⟨hdata, hdecode, _, rfl, by decide +kernel, ?_⟩
  exact fields_build_decoded (t := {}) (o := { allowedFields := some taggedPaths }) rfl rfl hdata hdecode rfl

end Translator

end Winnow
