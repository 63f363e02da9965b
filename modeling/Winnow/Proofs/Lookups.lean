import Winnow.Proofs.Translation

/-!
# Fields that are looked up

The questions that a translation asks its field map. Every field of a query is looked up once, with the indexed name of
the collection in front where the query is about the elements of one; combinators look up nothing of their own. The
names of a sort come last. `Filter.lookups` are these fields in order, and `Translator.events_build` says that a search
body leaves exactly these questions behind; under a map without names, each of them is recorded.
-/

namespace Winnow

/-! ## The fields of a filter -/

mutual

/-- The fields that a condition on an indexed field looks up: those of the queries inside it. -/
def Condition.lookups (m : FieldMap) (indexed : String) : Condition → List String
  | .compare _ _ => []
  | .combine _ members => lookupsOfMembers m indexed members
  | .nested _ operand => lookupsOfQuery m (Path.join indexed) operand
termination_by structural c => c

/-- The fields that the members of a combinator look up. -/
def lookupsOfMembers (m : FieldMap) (indexed : String) : List Value → List String
  | [] => []
  | v :: rest => lookupsOfMember m indexed v ++ lookupsOfMembers m indexed rest
termination_by structural members => members

/-- The fields that a member of a combinator looks up. -/
def lookupsOfMember (m : FieldMap) (indexed : String) : Value → List String
  | .condition c => c.lookups m indexed
  | _ => []
termination_by structural v => v

/-- The fields that a query looks up, each under the path that it stands for. -/
def lookupsOfQuery (m : FieldMap) (path : String → String) : Value → List String
  | .query pairs => lookupsOfPairs m path pairs
  | _ => []
termination_by structural v => v

/-- The fields that the pairs of a query look up: the path of each, and then those of its condition on the indexed
name. -/
def lookupsOfPairs (m : FieldMap) (path : String → String) : List (String × Condition) → List String
  | [] => []
  | (field, c) :: rest => path field :: (c.lookups m (m.nameOf (path field)) ++ lookupsOfPairs m path rest)
termination_by structural pairs => pairs

end

namespace Filter

/-- The fields that the sort of a filter looks up. -/
def sortLookups (f : Filter) (idField : String) : List String :=
  let field := f.sortField.plainText.getD ""
  if !f.hasSort idField then []
  else if f.hasNestedSort then [Path.join field (f.subProp.plainText.getD ""), field, Path.join field "id"]
  else [field]

/-- The fields that a filter looks up: those of its statements, one alternative after the other, and of its sort. -/
def lookups (f : Filter) (m : FieldMap) (idField : String) : List String :=
  f.statements.flatMap (fun statement => statement.flatMap (lookupsOfQuery m id)) ++ f.sortLookups idField

end Filter

namespace FieldMap

variable {m : FieldMap}

/-- The questions for the names of some fields. -/
def asked (m : FieldMap) (fields : List String) : List Event :=
  fields.map fun field => .lookedUp field (m field)

/-- The record of a field that the map has no name for. -/
def fallback (m : FieldMap) (field : String) : Level × String :=
  (.debug, "Field map returned " ++ ((m field).map Text.quoted).getD "None" ++ " for " ++ Text.quoted field ++
    "; using it unmapped")

theorem asked_append (fields others : List String) : m.asked (fields ++ others) = m.asked fields ++ m.asked others :=
  List.map_append

/-- Under a map without names every question is recorded. -/
theorem records_asked (h : ∀ field, isName (m field) = false) (fields : List String) :
    Logged.records (m.asked fields) = fields.map m.fallback := by
  induction fields with
  | nil => rfl
  | cons field rest ih =>
    rw [asked, List.map_cons, Logged.records, List.filterMap_cons, Event.record?, h field]
    exact congrArg (m.fallback field :: ·) ih

theorem leaves_apply (m : FieldMap) (field : String) : (m.apply field).Leaves (m.asked [field]) :=
  fun _ _ => rfl

end FieldMap

/-! ## What a translation asks -/

/-- A condition that is built from others by combinators and queries whose fields are named. -/
abbrev Condition.IsNamed (c : Condition) : Prop :=
  c.Has {}

/-- A query whose fields are named, in its conditions too. -/
abbrev Query.IsNamed (q : Query) : Prop :=
  Query.Has {} q

namespace Translator

variable {t : Translator}

/-- Going down a level asks nothing. -/
theorem leaves_descend (depth : Nat) : (t.descend depth).Leaves [] := by
  unfold descend
  split
  · exact .fail _ _
  · exact .pure _

section Members

variable {field : String} {members : List Condition}
  (h : ∀ c ∈ members, ∀ depth, (t.translateOn field depth c).Leaves (t.fieldMap.asked (c.lookups t.fieldMap field)))

include h

/-- A conjunction asks what its members ask. -/
theorem leaves_translateAll (depth : Nat) (before : Fragment Clause) :
    (t.translateAll field depth (members.map .condition) before).Leaves
      (t.fieldMap.asked (lookupsOfMembers t.fieldMap field (members.map .condition))) := by
  induction members generalizing before with
  | nil => exact .pure before
  | cons c rest ih =>
    simp only [List.map_cons, translateAll, lookupsOfMembers, FieldMap.asked_append]
    refine (leaves_descend depth).bind fun inner _ => ?_
    refine (h c (.head _) inner).bind fun fragment _ => ?_
    exact ih (fun d hd => h d (.tail _ hd)) (before.merge fragment)

/-- A disjunction asks what its members ask. -/
theorem leaves_translateAny (depth : Nat) :
    (t.translateAny field depth (members.map .condition)).Leaves
      (t.fieldMap.asked (lookupsOfMembers t.fieldMap field (members.map .condition))) := by
  induction members with
  | nil => exact .pure []
  | cons c rest ih =>
    simp only [List.map_cons, translateAny, lookupsOfMembers, FieldMap.asked_append]
    refine (leaves_descend depth).bind fun inner _ => ?_
    refine (h c (.head _) inner).bind fun fragment _ => ?_
    exact (ih fun d hd => h d (.tail _ hd)).then fun clauses _ => .pure _

end Members

/-- A query asks for each of its fields and then what the condition asks. -/
theorem leaves_translatePairs {outer : String} {path : String → String}
    (hpath : ∀ field, Path.inside outer field = path field) {depth : Nat} {pairs : Query}
    (h : ∀ p ∈ pairs, (t.translateOn (t.fieldMap.nameOf (path p.1)) depth p.2).Leaves
      (t.fieldMap.asked (p.2.lookups t.fieldMap (t.fieldMap.nameOf (path p.1))))) (before : Fragment Clause) :
    (t.translatePairs outer depth pairs before).Leaves (t.fieldMap.asked (lookupsOfPairs t.fieldMap path pairs)) := by
  induction pairs generalizing before with
  | nil => exact .pure before
  | cons p rest ih =>
    obtain ⟨field, c⟩ := p
    rw [translatePairs, lookupsOfPairs, hpath, ← List.singleton_append, FieldMap.asked_append, FieldMap.asked_append]
    refine (FieldMap.leaves_apply _ _).bind fun name hname => ?_
    obtain rfl := yields_apply _ _ _ hname
    refine (h (field, c) (.head _)).bind fun fragment _ => ?_
    exact ih (fun q hq => h q (.tail _ hq)) (before.merge fragment)

/-- The translation of a condition asks for the fields of the queries inside it. -/
theorem leaves_translateOn {c : Condition} (hc : c.IsNamed) {field : String} (hfield : field ≠ "") (depth : Nat) :
    (t.translateOn field depth c).Leaves (t.fieldMap.asked (c.lookups t.fieldMap field)) := by
  induction hc generalizing field depth with
  | compare _ =>
    rw [translateOn]
    split
    · exact .ofResult _
    · exact .fail _ _
  | @combine op members _ _ ih =>
    have hmembers := fun c hc depth => ih c hc hfield depth
    cases op with
    | all =>
      rw [translateOn, Condition.lookups]
      split
      · exact leaves_translateAll hmembers depth {}
      · exact .fail _ _
    | any =>
      rw [translateOn, Condition.lookups]
      split
      · split
        · next hempty =>
          rw [List.isEmpty_iff.1 hempty]
          exact .pure _
        · exact (leaves_translateAny hmembers depth).then fun clauses _ => .pure _
      · exact .fail _ _
  | @nested op pairs hnamed _ ih =>
    have hquery : ∀ inner, (t.translateOperand field inner (.query pairs)).Leaves
        (t.fieldMap.asked (lookupsOfQuery t.fieldMap (Path.join field) (.query pairs))) := by
      intro inner
      rw [translateOperand, lookupsOfQuery]
      refine leaves_translatePairs (Path.inside_eq_join hfield) ?_ {}
      intro p hp
      exact ih p hp (FieldMap.nameOf_ne_empty (Path.join_ne_empty field p.1)) inner
    rw [translateOn, Condition.lookups]
    split
    · refine (leaves_descend depth).bind fun inner _ => ?_
      refine (hquery inner).then fun query _ => ?_
      cases op with
      | find => exact .pure _
      | nfind => exact .pure _
    · exact .fail _ _

/-! ## What a search body asks -/

/-- A statement asks for the fields of its alternatives. -/
theorem leaves_translateAlternatives {statement : List Query} (h : ∀ q ∈ statement, q.IsNamed) :
    (t.translateAlternatives (statement.map .query)).Leaves
      (t.fieldMap.asked ((statement.map .query).flatMap (lookupsOfQuery t.fieldMap id))) := by
  induction statement with
  | nil => exact .pure _
  | cons q rest ih =>
    have hquery : (t.translatePairs "" 0 q {}).Leaves (t.fieldMap.asked (lookupsOfPairs t.fieldMap id q)) := by
      refine leaves_translatePairs (fun _ => rfl) ?_ {}
      intro p hp
      obtain ⟨hfield, hc⟩ := h q (.head _) p hp
      exact leaves_translateOn hc (FieldMap.nameOf_ne_empty hfield) 0
    rw [List.map_cons, translateAlternatives, List.flatMap_cons, FieldMap.asked_append, translateQuery,
      translateOperand, lookupsOfQuery]
    refine hquery.bind fun fragment _ => ?_
    exact (ih fun r hr => h r (.tail _ hr)).then fun fragments _ => .pure _

/-- Statements ask for the fields of each. -/
theorem leaves_translateEach {statements : List (List Query)}
    (h : ∀ statement ∈ statements, ∀ q ∈ statement, q.IsNamed) :
    (t.translateEach (Filter.statementsOf statements)).Leaves
      (t.fieldMap.asked ((Filter.statementsOf statements).flatMap fun statement =>
        statement.flatMap (lookupsOfQuery t.fieldMap id))) := by
  induction statements with
  | nil => exact .pure _
  | cons statement rest ih =>
    rw [Filter.statementsOf, List.map_cons, translateEach, List.flatMap_cons, FieldMap.asked_append,
      ← Filter.statementsOf]
    refine (leaves_translateAlternatives (h statement (.head _))).bind fun fragments _ => ?_
    exact (ih fun other hother => h other (.tail _ hother)).then fun clauses _ => .pure _

/-- A sort asks for the names that its first clause needs. -/
theorem leaves_translateSort {f : Filter} (hfield : f.sortField.IsSortName) :
    (t.translateSort f).Leaves (t.fieldMap.asked (f.sortLookups t.idField)) := by
  rw [translateSort, Filter.sortLookups]
  cases hsort : f.hasSort t.idField with
  | false => exact .pure _
  | true =>
    obtain ⟨field, hname⟩ := hfield.exists_text (Bool.and_eq_true_iff.1 hsort).1
    have hprimary : (t.primarySort f).Leaves (t.fieldMap.asked (if f.hasNestedSort = true then
        [Path.join field (f.subProp.plainText.getD ""), field, Path.join field "id"] else [field])) := by
      rw [primarySort, hname]
      split
      · refine (Logged.Leaves.ofResult _).bind fun outer houter => ?_
        obtain rfl := Except.ok.inj houter
        refine (Logged.Leaves.ofResult _).bind fun inner hinner => ?_
        rw [Fault.eq_some_of_ofWriting hinner, Option.getD_some]
        refine (FieldMap.leaves_apply _ _).bind fun _ _ => ?_
        refine (FieldMap.leaves_apply _ field).bind fun _ _ => ?_
        exact (FieldMap.leaves_apply _ _).then fun _ _ => .pure _
      · exact (FieldMap.leaves_apply _ field).then fun _ _ => .pure _
    rw [hname]
    exact hprimary.then fun clause _ => .pure _

/-- One clause of the statements is asked for as each of them is. -/
theorem leaves_translateStatements {statements : List Statement} {events : List Event}
    (h : (t.translateEach statements).Leaves events) : (t.translateStatements statements).Leaves events := by
  rw [translateStatements_eq]
  exact h.then fun clauses _ => .pure _

/-- A search body leaves behind the questions for the fields of the filter, in their order, and that it is built; under
a map without names, the records are those fields, each kept as it is. -/
theorem events_build {f : Filter} {statements : List (List Query)}
    (hstatements : f.statements = Filter.statementsOf statements)
    (hnamed : ∀ statement ∈ statements, ∀ q ∈ statement, q.IsNamed) (hfield : f.sortField.IsSortName)
    {body : SearchBody} (hbody : (t.build f).result = .ok body) :
    ∃ size, (t.build f).events =
        t.fieldMap.asked (f.lookups t.fieldMap t.idField) ++ [.built f.statements.length body.sort.length size] ∧
      ((∀ field, isName (t.fieldMap field) = false) → Logged.records (t.build f).events =
        (f.lookups t.fieldMap t.idField).map t.fieldMap.fallback ++
          Logged.records [.built f.statements.length body.sort.length size]) := by
  obtain ⟨hquery, hsort, -, size, -, hbuilt⟩ := build_eq_ok hbody
  have hasked : (t.translateStatements f.statements).events ++ (t.translateSort f).events =
      t.fieldMap.asked (f.lookups t.fieldMap t.idField) := by
    rw [Filter.lookups, FieldMap.asked_append, hstatements,
      ← leaves_translateStatements (leaves_translateEach hnamed) body.query (hstatements ▸ hquery),
      leaves_translateSort hfield body.sort hsort]
  rw [hasked] at hbuilt
  refine ⟨size, hbuilt, fun hnameless => ?_⟩
  rw [hbuilt, Logged.records, List.filterMap_append]
  exact congrArg (· ++ _) (FieldMap.records_asked hnameless _)

/-- An author with a note that has a tag or with none at all, or a title, sorted by the days of visits to a place. -/
def layered : List (List Query) :=
  [[[("author", .find [("notes", .combine .any ([.find [("tag", .eq (.text "x"))], .eq .null].map .condition)),
      ("name", .neq .null)])],
    [("title", .combine .all ([.neq .null, .within .lt (.text "m")].map .condition))]]]

/-- The filter of the layered statements. -/
def layeredFilter : Filter :=
  { statements := Filter.statementsOf layered, sortField := .text "visits", subId := .text "lab",
    subProp := .text "days" }

theorem isNamed_layered : ∀ statement ∈ layered, ∀ q ∈ statement, q.IsNamed := by
  simp [layered, Query.IsNamed, Query.Has, Condition.find, Condition.eq, Condition.neq, Condition.within,
    Condition.has_nested_iff, Condition.has_combine_iff, Condition.has_compare_iff, -List.map_cons, -List.map_nil]

/-- A map that puts a text in front is asked for the tag of the notes with the text in front of what it answered before;
a map that answers with the empty text leaves every field as it is. -/
theorem events_build_layered :
    (∃ size, (build { fieldMap := .prefixedBy "x." } layeredFilter).events =
      [.lookedUp "author" (some "x.author"), .lookedUp "x.author.notes" (some "x.x.author.notes"),
        .lookedUp "x.x.author.notes.tag" (some "x.x.x.author.notes.tag"),
        .lookedUp "x.author.name" (some "x.x.author.name"), .lookedUp "title" (some "x.title"),
        .lookedUp "visits.days" (some "x.visits.days"), .lookedUp "visits" (some "x.visits"),
        .lookedUp "visits.id" (some "x.visits.id"), .built 1 2 size]) ∧
      ∃ size, Logged.records (build { fieldMap := .constant (some "") } layeredFilter).events =
        ["author", "author.notes", "author.notes.tag", "author.name", "title", "visits.days", "visits",
          "visits.id"].map (FieldMap.constant (some "")).fallback ++ Logged.records [.built 1 2 size] := by
  obtain ⟨size, hevents, -⟩ := events_build (t := { fieldMap := .prefixedBy "x." }) (f := layeredFilter) rfl
    isNamed_layered trivial rfl
  obtain ⟨size', -, hrecords⟩ := events_build (t := { fieldMap := .constant (some "") }) (f := layeredFilter) rfl
    isNamed_layered trivial rfl
  exact ⟨⟨size, hevents⟩, ⟨size', hrecords fun _ => rfl⟩⟩

end Translator

end Winnow
