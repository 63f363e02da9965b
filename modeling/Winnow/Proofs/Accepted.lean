import Winnow.Proofs.Modes
import Winnow.Proofs.Shape

/-!
# Filters that are read

What is known of a filter that JSON data is read as. Its conditions are accepted (`Condition.Accepted`): their operands
are ones that comparisons are read with, their fields are named and allowed, and they are nested within the room there
is. Its sort is of names, and its limit is a positive whole number (`Filter.accepted_of_decode`).
-/

namespace Winnow

/-- Values that a JSON text can spell, all texts among their values being of a kind. -/
inductive Value.IsJsonOf (texts : String → Prop) : Value → Prop where
  | null : IsJsonOf texts .null
  | bool (b : Bool) : IsJsonOf texts (.bool b)
  | int (n : Int) : IsJsonOf texts (.int n)
  | float (x : Binary64) : IsJsonOf texts (.float x)
  | text {s : String} : texts s → IsJsonOf texts (.text s)
  | list {items : List Value} : (∀ v ∈ items, IsJsonOf texts v) → IsJsonOf texts (.list items)
  | object {entries : List (String × Value)} :
      (∀ entry ∈ entries, IsJsonOf texts entry.2) → IsJsonOf texts (.object entries)

/-- Values that a JSON text can spell. -/
abbrev Value.IsJson (v : Value) : Prop :=
  v.IsJsonOf fun _ => True

/-- The operands that comparisons are read with: plain scalars, texts that are no canonical dates, the dates that the
other texts are, any text where dates are not looked for, and relative dates as bounds. -/
inductive Comparison.Reads : Comparison → Value → Prop where
  | null (op : Comparison) : Reads op .null
  | bool (op : Comparison) (b : Bool) : Reads op (.bool b)
  | int (op : Comparison) (n : Int) : Reads op (.int n)
  | float (op : Comparison) (x : Binary64) : Reads op (.float x)
  | text {op : Comparison} {s : String} : Decode.readsDates op = true → readCanonical? s = none → Reads op (.text s)
  | moment {op : Comparison} {s : String} {v : Value} :
      Decode.readsDates op = true → readCanonical? s = some v → Reads op v
  | start (s : String) : Reads .startsWith (.text s)
  | daysAgo (b : Bound) (days : Nat) : Reads (.bound b) (.daysAgo days)

/-- The path of a field, inside a collection or on its own. -/
def Path.below (outer : Option String) (field : String) : String :=
  match outer with
  | some outer => join outer field
  | none => field

/-- A condition that can be read on a field path, with room for a number of levels of conditions. -/
inductive Condition.Accepted (o : DecodeOptions) : Nat → String → Condition → Prop where
  | compare {room : Nat} {path : String} {op : Comparison} {operand : Value} :
      op.Reads operand → Accepted o (room + 1) path (.compare op operand)
  | combine {room : Nat} {path : String} {op : Combinator} {members : List Condition} :
      (∀ c ∈ members, Accepted o room path c) → Accepted o (room + 1) path (.combine op (members.map .condition))
  | nested {room : Nat} {path : String} {op : Membership} {pairs : Query} :
      (∀ p ∈ pairs, p.1 ≠ "" ∧ o.allows (Path.join path p.1) = true) →
      (∀ p ∈ pairs, Accepted o room (Path.join path p.1) p.2) → Accepted o (room + 1) path (.nested op (.query pairs))

/-- A field with its condition that can be read in a query about a collection, or in one that is not. -/
structure AcceptedPair (o : DecodeOptions) (room : Nat) (outer : Option String) (p : String × Condition) : Prop where
  named : p.1 ≠ ""
  allowed : o.allows (Path.below outer p.1) = true
  condition : p.2.Accepted o room (Path.below outer p.1)

/-- A filter that can be read. -/
structure Filter.Accepted (o : DecodeOptions) (f : Filter) : Prop where
  statements : ∃ statements, f.statements = statementsOf statements ∧
    ∀ statement ∈ statements, ∀ q ∈ statement, ∀ p ∈ q, AcceptedPair o o.room none p
  sortField : f.sortField.IsSortName
  subId : f.subId.IsSortName
  subProp : f.subProp.IsSortName
  limit : ∃ n : Int, 1 ≤ n ∧ f.limit = .int n

/-! ## JSON values -/

namespace Value

variable {texts : String → Prop}

theorem isJsonOf_list_iff {items : List Value} : (list items).IsJsonOf texts ↔ ∀ v ∈ items, v.IsJsonOf texts := by
  refine ⟨?_, .list⟩
  intro h
  cases h with
  | list h => exact h

theorem isJsonOf_object_iff {entries : List (String × Value)} :
    (object entries).IsJsonOf texts ↔ ∀ entry ∈ entries, entry.2.IsJsonOf texts := by
  refine ⟨?_, .object⟩
  intro h
  cases h with
  | object h => exact h

/-- What stands at a key of a JSON object is JSON, null when nothing does. -/
theorem IsJsonOf.lookup {entries : List (String × Value)} (h : (Value.object entries).IsJsonOf texts) (key : String) :
    (Value.lookup key entries).IsJsonOf texts := by
  unfold Value.lookup
  cases hfound : entries.lookup key with
  | none => exact .null
  | some v => exact isJsonOf_object_iff.1 h _ (mem_of_lookup hfound)

theorem inherited_isJsonOf : Inherited (IsJsonOf texts) where
  item := isJsonOf_list_iff.1
  lookup := IsJsonOf.lookup

/-- A JSON value that counts as a text is a text. -/
theorem IsJsonOf.isSortName {v : Value} (h : v.IsJsonOf texts) (htext : v.asText?.isSome = true) : v.IsSortName := by
  cases h with
  | text _ => trivial
  | _ => cases htext

end Value

/-! ## Reading conditions -/

namespace Decode

variable {o : DecodeOptions}

/-- The operand of a comparison is read as one of its operands. -/
theorem scalar_yields {op : Comparison} {place : Place} {value : Value} (hvalue : value.IsJson) :
    (scalar o op place value).Yields fun found =>
      ∀ c ∈ found, ∃ operand, c = .compare op operand ∧ op.Reads operand := by
  unfold scalar
  split
  · next b entries =>
    split
    · next days _ =>
      refine .pure fun c hc => ?_
      cases hc
      exact ⟨.daysAgo days, rfl, .daysAgo b days⟩
    · exact .report _ _ _
  · exact .report _ _ _
  · exact .report _ _ _
  · next s =>
    refine .pure fun c hc => ?_
    cases hc
    refine ⟨_, rfl, ?_⟩
    split
    · next hdates =>
      cases hread : readCanonical? s with
      | none => exact .text hdates hread
      | some v => exact .moment hdates hread
    · next hdates =>
      cases op with
      | startsWith => exact .start s
      | _ => exact absurd rfl hdates
  · next hobject hlist htext _ =>
    refine .pure fun c hc => ?_
    cases hc
    refine ⟨value, rfl, ?_⟩
    cases hvalue with
    | null => exact .null op
    | bool b => exact .bool op b
    | int n => exact .int op n
    | float x => exact .float op x
    | text _ => exact absurd rfl (htext _)
    | list _ => exact absurd rfl (hlist _)
    | object _ => exact absurd rfl (hobject _)

/-- What conditions on field paths are built of, with room for a number of levels, when the values of the data have a
property: of comparisons that are read, of combined members and of queries with named and allowed fields. -/
structure Builds (o : DecodeOptions) (P : Value → Prop) (R : Nat → String → Condition → Prop) : Prop where
  compare : ∀ {room path op place value}, P value →
    (scalar o op place value).Yields fun found => ∀ c ∈ found, R (room + 1) path c
  combine : ∀ {room path op} {members : List Condition}, (∀ c ∈ members, R room path c) →
    R (room + 1) path (.combine op (members.map .condition))
  nested : ∀ {room path op} {pairs : Query}, (∀ p ∈ pairs, p.1 ≠ "" ∧ o.allows (Path.join path p.1) = true) →
    (∀ p ∈ pairs, R room (Path.join path p.1) p.2) → R (room + 1) path (.nested op (.query pairs))

/-- A field that is named and allowed in a query, with a condition of which something holds on the path of the field. -/
def BuiltPair (o : DecodeOptions) (R : String → Condition → Prop) (outer : Option String) (p : String × Condition) :
    Prop :=
  (p.1 ≠ "" ∧ o.allows (Path.below outer p.1) = true) ∧ R (Path.below outer p.1) p.2

section Reader

variable {P : Value → Prop} {R : String → Condition → Prop} {read : ConditionReader}

/-- A field condition is read as a named and allowed field with a condition as conditions are read. -/
theorem leaf_yields
    (hread : ∀ data place path, P data → (read data place path).Yields fun found => ∀ c ∈ found, R path c)
    {outer : Option String} {place : Place} {data : Value} (hdata : P data) :
    (leaf o read outer place data).Yields fun found => ∀ p ∈ found, BuiltPair o R outer p := by
  unfold leaf
  split
  · split
    · exact .reportShown _ _ _ _
    · next field _ =>
      split
      · exact .reportShown _ _ _ _
      · next hempty =>
        show Walk.Yields _ (if (!o.allows (Path.below outer field)) = true then _ else _)
        split
        · exact .report _ _ _
        · next hallowed =>
          refine (hread _ _ _ hdata).bind fun found hfound => .pure ?_
          intro p hp
          obtain ⟨c, hc, rfl⟩ := Option.map_eq_some_iff.1 hp
          exact ⟨⟨by simpa using hempty, by simpa using hallowed⟩, hfound c hc⟩
  · exact .report _ _ _

/-- A query is read as one of named and allowed fields with conditions as conditions are read. -/
theorem query_yields (hP : Value.Inherited P)
    (hread : ∀ data place path, P data → (read data place path).Yields fun found => ∀ c ∈ found, R path c)
    {outer : Option String} {place : Place} {data : Value} (hdata : P data) :
    (query o read outer place data).Yields fun found => ∀ q ∈ found, ∀ p ∈ q, BuiltPair o R outer p := by
  unfold query
  split
  · next items =>
    refine (Walk.Yields.each fun i v hv => leaf_yields hread (hP.item hdata v hv)).bind ?_
    intro pairs hpairs
    refine .pure fun q hq p hp => ?_
    cases hq
    obtain ⟨found, hfound, rfl⟩ := List.mem_filterMap.1 hp
    exact hpairs _ hfound p rfl
  · exact .report _ _ _

end Reader

section Conditions

variable {P : Value → Prop} {R : Nat → String → Condition → Prop}

/-- A condition is read as one that is built, by induction on the room there is for levels of conditions. -/
theorem condition_yields (hP : Value.Inherited P) (hR : Builds o P R) (room : Nat) (data : Value) (place : Place)
    (path : String) (hdata : P data) :
    (condition o room data place path).Yields fun found => ∀ c ∈ found, R room path c := by
  induction room generalizing data place path with
  | zero => exact .reportShown _ _ _ _
  | succ room ih =>
    unfold condition
    split
    · next entries =>
      split
      · exact .report _ _ _
      · split
        · exact .report _ _ _
        · have hvalue := hP.lookup hdata "value"
          dsimp only
          split
          · exact .report _ _ _
          · exact hR.compare hvalue
          · next op _ =>
            split
            · next items hitems =>
              rw [hitems] at hvalue
              refine (Walk.Yields.each fun i v hv => ih v _ path (hP.item hvalue v hv)).bind ?_
              intro members hmembers
              refine .pure fun c hc => ?_
              cases hc
              refine hR.combine fun c hc => ?_
              obtain ⟨found, hfound, rfl⟩ := List.mem_filterMap.1 hc
              exact hmembers _ hfound c rfl
            · exact .report _ _ _
          · next op _ =>
            refine (query_yields hP ih hvalue).bind fun found hfound => .pure ?_
            intro c hc
            obtain ⟨q, hq, rfl⟩ := Option.map_eq_some_iff.1 hc
            exact hR.nested (fun p hp => (hfound q hq p hp).1) fun p hp => (hfound q hq p hp).2
    · exact .report _ _ _

/-! ## Reading filters -/

theorem statement_yields (hP : Value.Inherited P) (hR : Builds o P R) {place : Place} {data : Value} (hdata : P data) :
    (statement o place data).Yields fun found =>
      ∀ queries ∈ found, ∀ q ∈ queries, ∀ p ∈ q, BuiltPair o (R o.room) none p := by
  unfold statement
  split
  · next items =>
    refine (Walk.Yields.each fun i v hv =>
      query_yields hP (condition_yields hP hR o.room) (hP.item hdata v hv)).bind ?_
    intro queries hqueries
    refine .pure fun found hfound q hq => ?_
    cases hfound
    obtain ⟨found, hfound, rfl⟩ := List.mem_filterMap.1 hq
    exact hqueries _ hfound q rfl
  · exact .report _ _ _

theorem statements_yields (hP : Value.Inherited P) (hR : Builds o P R) {entries : List (String × Value)}
    (hdata : P (.object entries)) :
    (statements o entries).Yields fun found =>
      ∀ statement ∈ found, ∀ q ∈ statement, ∀ p ∈ q, BuiltPair o (R o.room) none p := by
  unfold statements
  dsimp only
  split
  · exact .pure nofun
  · next items hitems =>
    have hlookup : Value.lookup "statements" entries = .list items := by rw [Value.lookup, hitems, Option.getD_some]
    have hlist := hP.item (hlookup ▸ hP.lookup hdata "statements")
    refine (Walk.Yields.each fun i v hv => statement_yields hP hR (hlist v hv)).bind ?_
    intro found hfound
    refine .pure fun statement hstatement => ?_
    obtain ⟨queries, hqueries, rfl⟩ := List.mem_filterMap.1 hstatement
    exact hfound _ hqueries statement rfl
  · exact .report _ _ _

/-- The statements of a filter are read as ones of conditions that are built. -/
theorem filter_yields_statements (hP : Value.Inherited P) (hR : Builds o P R) {data : Value} (hdata : P data) :
    (filter o data).Yields fun found => ∀ f ∈ found, ∃ statements, f.statements = Filter.statementsOf statements ∧
      ∀ statement ∈ statements, ∀ q ∈ statement, ∀ p ∈ q, BuiltPair o (R o.room) none p := by
  unfold filter
  split
  · next entries =>
    refine (statements_yields hP hR hdata).bind fun statements hstatements => ?_
    refine (Walk.Yields.any _).bind fun _ _ => (Walk.Yields.any _).bind fun _ _ => ?_
    refine (Walk.Yields.any _).bind fun _ _ => (Walk.Yields.any _).bind fun _ _ => ?_
    refine (Walk.Yields.any _).bind fun _ _ => (Walk.Yields.any _).bind fun _ _ => ?_
    refine .pure fun f hf => ?_
    cases hf
    exact ⟨statements, rfl, hstatements⟩
  · exact .report _ _ _

end Conditions

theorem sortEntries_yields {entries : List (String × Value)} (hdata : (Value.object entries).IsJson) :
    (sortEntries entries).Yields fun sort => (Value.object sort).IsJson := by
  unfold sortEntries
  split
  · next sort hsort => exact .pure (hsort ▸ hdata.lookup "sort")
  · split
    · exact .report _ _ _
    · exact .pure (.object nofun)

theorem sortName_yields {sort : List (String × Value)} (hsort : (Value.object sort).IsJson) (key : String) :
    (sortName sort key).Yields Value.IsSortName := by
  unfold sortName
  split
  · exact .pure trivial
  · split
    · next htext => exact .pure ((hsort.lookup key).isSortName htext)
    · exact .report _ _ _

theorem limit_yields (entries : List (String × Value)) :
    (limit entries).Yields fun v => ∃ n : Int, 1 ≤ n ∧ v = .int n := by
  unfold limit
  split
  · exact .pure ⟨10, by decide, rfl⟩
  · next v _ =>
    split
    · next hpositive =>
      refine .pure ?_
      cases v with
      | int n => exact ⟨n, of_decide_eq_true hpositive, rfl⟩
      | _ => cases hpositive
    · exact .reportShown _ _ _ _

/-- The sort of a filter in JSON data is read as one of names, and the limit as a positive whole number. -/
theorem filter_yields_sort {data : Value} (hdata : data.IsJson) :
    (filter o data).Yields fun found => ∀ f ∈ found, (f.sortField.IsSortName ∧ f.subId.IsSortName ∧
      f.subProp.IsSortName) ∧ ∃ n : Int, 1 ≤ n ∧ f.limit = .int n := by
  unfold filter
  split
  · next entries =>
    refine (Walk.Yields.any _).bind fun statements _ => ?_
    refine (sortEntries_yields hdata).bind fun sort hsort => ?_
    refine (sortName_yields hsort _).bind fun sortField hsortField => ?_
    refine (sortName_yields hsort _).bind fun subId hsubId => ?_
    refine (sortName_yields hsort _).bind fun subProp hsubProp => ?_
    refine (Walk.Yields.any _).bind fun direction _ => ?_
    refine (limit_yields entries).bind fun limit hlimit => .pure ?_
    intro f hf
    cases hf
    exact ⟨⟨hsortField, hsubId, hsubProp⟩, hlimit⟩
  · exact .report _ _ _

end Decode

/-- What holds of every filter that a walk ends with holds of the filter that is read. -/
theorem Filter.of_decode {o : DecodeOptions} {data : Value} {f : Filter} (h : (decode o data).result = .ok f)
    {P : Filter → Prop} (hwalk : (Decode.filter o data).Yields fun found => ∀ f ∈ found, P f) : P f := by
  rw [decode, Logged.result_bind (Decode.result_noteUnknownKeys data)] at h
  split at h
  · next found noted hstop =>
    cases h
    exact hwalk _ noted hstop f rfl
  · cases h
  · cases h

/-- A walk that ends with a filter is what reading ends with. -/
theorem Filter.result_decode {o : DecodeOptions} {data : Value} {f : Filter} {noted : List Problem}
    (h : Decode.filter o data .failFast = .ok (some f, noted)) : (decode o data).result = .ok f := by
  rw [decode, Logged.result_bind (Decode.result_noteUnknownKeys data), h]
  rfl

/-- The conditions that JSON data is read as are accepted. -/
theorem Decode.builds_accepted (o : DecodeOptions) : Builds o Value.IsJson (Condition.Accepted o) where
  compare := by
    intro room path op place value hvalue found noted hfound c hc
    obtain ⟨operand, rfl, hoperand⟩ := scalar_yields hvalue found noted hfound c hc
    exact .compare hoperand
  combine := .combine
  nested := .nested

/-- A filter that JSON data is read as is accepted. -/
theorem Filter.accepted_of_decode {o : DecodeOptions} {data : Value} (hdata : data.IsJson) {f : Filter}
    (h : (decode o data).result = .ok f) : f.Accepted o := by
  obtain ⟨statements, hstatements, hpairs⟩ :=
    of_decode h (Decode.filter_yields_statements Value.inherited_isJsonOf (Decode.builds_accepted o) hdata)
  obtain ⟨⟨hsortField, hsubId, hsubProp⟩, hlimit⟩ := of_decode h (Decode.filter_yields_sort hdata)
  refine ⟨⟨statements, hstatements, ?_⟩, hsortField, hsubId, hsubProp, hlimit⟩
  intro statement hstatement q hq p hp
  obtain ⟨⟨hnamed, hallowed⟩, hcondition⟩ := hpairs statement hstatement q hq p hp
  exact ⟨hnamed, hallowed, hcondition⟩

/-! ## Accepted conditions -/

namespace Condition

variable {o : DecodeOptions} {room : Nat} {path : String} {c : Condition}

/-- The shape of conditions that are read. -/
def acceptedShape : Shape where
  operand := Comparison.Reads

/-- An accepted condition is built from operands that comparisons are read with and from named fields. -/
theorem Accepted.has (h : c.Accepted o room path) : c.Has acceptedShape := by
  induction h with
  | compare hoperand => exact .compare hoperand
  | combine _ ih => exact .combine (fun _ _ => trivial) ih
  | nested hfields _ ih => exact .nested (fun p hp => (hfields p hp).1) ih

/-- An accepted condition is nested within the room there is. -/
theorem Accepted.depth_lt (h : c.Accepted o room path) : c.depth 0 < room := by
  induction h with
  | compare _ => exact Nat.succ_pos _
  | combine _ ih => exact Nat.lt_succ_of_le (depth_combine_le.2 ih)
  | nested _ _ ih => exact Nat.lt_succ_of_le (depth_nested_le.2 ⟨Nat.zero_le _, ih⟩)

/-- An accepted condition of a filter is nested no deeper than allowed. -/
theorem Accepted.depth_le (h : c.Accepted o o.room path) : (c.depth 0 : Int) ≤ o.maxDepth := by
  have hlt := h.depth_lt
  rw [DecodeOptions.room] at hlt
  omega

end Condition

/-! ## Filters of one condition -/

namespace Filter

/-- A filter of one query with one condition as data. -/
def soleData (field op : String) (value : Value) : Value :=
  .object [("statements", .list [.list [.list [.object [("field", .text field), ("op", .text op), ("value", value)]]]])]

theorem isJson_soleData {field op : String} {value : Value} (h : value.IsJson) : (soleData field op value).IsJson := by
  have hleaf : (Value.object [("field", .text field), ("op", .text op), ("value", value)]).IsJson := by
    refine .object ?_
    simp only [List.forall_mem_cons, List.not_mem_nil, false_implies, implies_true, and_true]
    exact ⟨.text trivial, .text trivial, h⟩
  have hlist : ∀ {v : Value}, v.IsJson → (Value.list [v]).IsJson := fun h => .list (List.forall_mem_singleton.2 h)
  exact .object (List.forall_mem_singleton.2 (hlist (hlist (hlist hleaf))))

end Filter

end Winnow
