import Winnow.Proofs.Accepted
import Winnow.Proofs.CanonicalText
import Winnow.Value.Encode

/-!
# Filters as data, and back

Statements about `Filter.encode` and `Filter.decode`. A filter is read back from its data as it was, but for one thing:
a date and time whose offset is less than a second comes back as its text (`DateTime.isLegible`). `Filter.reread` is the
filter that comes back, under any options that the filter keeps to (`Filter.decode_encode_of_readable`).
-/

namespace Winnow

/-! ## What comes back -/

mutual

/-- The condition that is read back from the data of a condition. -/
def Condition.reread : Condition → Condition
  | .compare op operand => .compare op operand.reread
  | .combine op members => .combine op (rereadItems members)
  | .nested op operand => .nested op operand.reread
termination_by structural c => c

/-- The operand that is read back from the data of an operand. -/
def Value.reread : Value → Value
  | .condition c => .condition c.reread
  | .query pairs => .query (rereadPairs pairs)
  | .datetime t => if t.isLegible then .datetime t else .text t.toIso
  | v => v
termination_by structural v => v

/-- The members of a combinator that are read back. -/
def rereadItems : List Value → List Value
  | [] => []
  | v :: rest => v.reread :: rereadItems rest
termination_by structural items => items

/-- The pairs of a query that are read back. -/
def rereadPairs : List (String × Condition) → List (String × Condition)
  | [] => []
  | (field, c) :: rest => (field, c.reread) :: rereadPairs rest
termination_by structural pairs => pairs

end

/-- The query that is read back from the data of a query. -/
def Query.reread (q : Query) : Query :=
  rereadPairs q

/-- The filter that is read back from the data of a filter. -/
def Filter.reread (f : Filter) : Filter :=
  { f with statements := f.statements.map fun statement => statement.map Value.reread }

/-! ## Filters meant to be written -/

/-- Whether a value is a scalar that data has a form for; a text that is read as a date has none. -/
def Value.IsScalar : Value → Prop
  | .null | .bool _ | .int _ | .date _ | .datetime _ => True
  | .text s => readCanonical? s = none
  | _ => False

/-- Whether a value is an operand of a comparison that data has a form for. -/
def Comparison.Takes (op : Comparison) (operand : Value) : Prop :=
  match op, operand with
  | .startsWith, .null | .startsWith, .text _ => True
  | .startsWith, _ => False
  | .bound _, .daysAgo _ => True
  | _, v => v.IsScalar

/-- The shape of conditions that data has a form for. -/
def plainShape : Shape where
  operand := Comparison.Takes

/-- The shape of conditions without a date and time that is not read back. -/
def legibleShape : Shape where
  operand := fun _ operand => ∀ t, operand = .datetime t → t.isLegible = true
  field := fun _ => True

/-- A filter that data has a form for: its statements hold given queries of comparisons with plain operands, nested no
deeper than `maxDepth`, its sort has names, and its limit is a positive whole number. -/
structure Filter.IsPlain (maxDepth : Int) (statements : List (List Query)) (f : Filter) : Prop where
  statements_eq : f.statements = Filter.statementsOf statements
  shape : ∀ statement ∈ statements, ∀ q ∈ statement, Query.Has plainShape q
  depth : ∀ statement ∈ statements, ∀ q ∈ statement, ∀ p ∈ q, (p.2.depth 0 : Int) ≤ maxDepth
  sortField : f.sortField.IsSortName
  subId : f.subId.IsSortName
  subProp : f.subProp.IsSortName
  limit : ∃ n, f.limit = .int n ∧ 1 ≤ n

/-! ## Filters that are read back -/

/-- A condition whose data is read on a field path, with room for a number of levels of conditions: the operand of each
comparison is read as what comes back, and the fields of queries are named and allowed. -/
inductive Condition.Readable (o : DecodeOptions) : Nat → String → Condition → Prop where
  | compare {room : Nat} {path : String} {op : Comparison} {operand : Value} :
      (∀ place, Decode.scalar o op place operand.encode = pure (some (.compare op operand.reread))) →
      Readable o (room + 1) path (.compare op operand)
  | combine {room : Nat} {path : String} {op : Combinator} {members : List Condition} :
      (∀ c ∈ members, Readable o room path c) → Readable o (room + 1) path (.combine op (members.map .condition))
  | nested {room : Nat} {path : String} {op : Membership} {pairs : Query} :
      (∀ p ∈ pairs, p.1 ≠ "" ∧ o.allows (Path.join path p.1) = true) →
      (∀ p ∈ pairs, Readable o room (Path.join path p.1) p.2) → Readable o (room + 1) path (.nested op (.query pairs))

/-- A field with its condition whose data is read in a query about a collection, or in one that is not. -/
structure ReadablePair (o : DecodeOptions) (room : Nat) (outer : Option String) (p : String × Condition) : Prop where
  named : p.1 ≠ ""
  allowed : o.allows (Path.below outer p.1) = true
  condition : p.2.Readable o room (Path.below outer p.1)

/-- A filter whose data is read under some options: its statements hold given queries of readable conditions, its sort
has names, and its limit is a positive whole number. -/
structure Filter.Readable (o : DecodeOptions) (statements : List (List Query)) (f : Filter) : Prop where
  statements_eq : f.statements = Filter.statementsOf statements
  pairs : ∀ statement ∈ statements, ∀ q ∈ statement, ∀ p ∈ q, ReadablePair o o.room none p
  sortField : f.sortField.IsSortName
  subId : f.subId.IsSortName
  subProp : f.subProp.IsSortName
  limit : ∃ n, f.limit = .int n ∧ 1 ≤ n

/-! ## Lists of data -/

theorem rereadItems_eq (items : List Value) : rereadItems items = items.map Value.reread := by
  induction items with
  | nil => rfl
  | cons v rest ih => rw [rereadItems, ih, List.map_cons]

theorem rereadPairs_eq (pairs : Query) : rereadPairs pairs = pairs.map fun p => (p.1, p.2.reread) := by
  induction pairs with
  | nil => rfl
  | cons p rest ih =>
    obtain ⟨field, c⟩ := p
    rw [rereadPairs, ih, List.map_cons]

/-- A walk over the data of items each of which is read as it should be. -/
theorem Walk.each_map {α β γ : Type} (visit : Nat → β → Walk γ) (write : α → β) (back : α → γ) {items : List α}
    (h : ∀ i, ∀ a ∈ items, visit i (write a) = pure (back a)) :
    Walk.each visit (items.map write) = pure (items.map back) := by
  suffices ∀ start, Walk.eachFrom visit start (items.map write) = pure (items.map back) from this 0
  induction items with
  | nil => exact fun _ => rfl
  | cons a rest ih =>
    intro start
    rw [List.map_cons, Walk.eachFrom, h start a List.mem_cons_self, Walk.pure_bind,
      ih (fun i b hb => h i b (List.mem_cons_of_mem a hb)), Walk.pure_bind]
    rfl

/-! ## Conditions -/

/-- Every operator is read back from its name. -/
theorem Operator.ofText?_name (op : Operator) : ofText? op.name = some op := by
  rcases op with (_ | _ | (_ | _ | _ | _) | _) | (_ | _) | (_ | _) <;> decide

theorem Operator.isEmpty_name (op : Operator) : op.name.isEmpty = false := by
  rcases op with (_ | _ | (_ | _ | _ | _) | _) | (_ | _) | (_ | _) <;> decide

/-- What comes back from the data of a combinator. -/
theorem Condition.reread_combine (op : Combinator) (members : List Condition) :
    (combine op (members.map .condition)).reread = combine op ((members.map Condition.reread).map .condition) := by
  simp only [Condition.reread, rereadItems_eq, List.map_map]
  rfl

/-- The data of a condition names its operator. -/
theorem Condition.lookup_op_encodeEntries (c : Condition) : Value.lookup "op" c.encodeEntries = .text c.op.name := by
  cases c <;> rfl

namespace Decode

variable {o : DecodeOptions}

/-- A text is read as what it is the canonical form of, if anything. -/
theorem scalar_text {op : Comparison} (h : readsDates op = true) (place : Place) (s : String) :
    scalar o op place (.text s) = pure (some (.compare op ((readCanonical? s).getD (.text s)))) := by
  rcases op with _ | _ | _ | _ <;> simp_all [scalar, readsDates]

/-- A scalar is read back from its data where dates are read. -/
theorem scalar_encode_of_isScalar {op : Comparison} (hop : readsDates op = true) {v : Value} (h : v.IsScalar)
    (place : Place) : scalar o op place v.encode = pure (some (.compare op v.reread)) := by
  cases v with
  | null => rcases op with _ | _ | _ | _ <;> rfl
  | bool b => rcases op with _ | _ | _ | _ <;> rfl
  | int n => rcases op with _ | _ | _ | _ <;> rfl
  | text s =>
    have hs : readCanonical? s = none := h
    show scalar o op place (.text s) = _
    rw [scalar_text hop, hs]
    rfl
  | date d =>
    rw [Value.encode, scalar_text hop, readCanonical?_date]
    rfl
  | datetime t =>
    rw [Value.encode, scalar_text hop, readCanonical?_datetime, Value.reread]
    split <;> rfl
  | _ => exact absurd h id

/-- The operand of a comparison is read back from its data. -/
theorem scalar_encode (hdays : o.readDays.ReadsWritten) {op : Comparison} {operand : Value} (h : op.Takes operand)
    (place : Place) : scalar o op place operand.encode = pure (some (.compare op operand.reread)) := by
  cases op with
  | eq =>
    refine scalar_encode_of_isScalar rfl ?_ place
    cases operand <;> exact h
  | neq =>
    refine scalar_encode_of_isScalar rfl ?_ place
    cases operand <;> exact h
  | bound b =>
    cases operand with
    | daysAgo days =>
      show scalar o (.bound b) place (.object [("daysAgo", .int days)]) = _
      simp only [scalar, hdays days]
      rfl
    | _ =>
      refine scalar_encode_of_isScalar rfl ?_ place
      exact h
  | startsWith =>
    cases operand with
    | null => rfl
    | text s => rfl
    | _ => exact absurd h id

/-- A pair is read back from its data when its condition is. -/
theorem leaf_encodePair {read : ConditionReader} {outer : Option String} {p : String × Condition} (hnamed : p.1 ≠ "")
    (hallowed : o.allows (Path.below outer p.1) = true)
    (hread : ∀ place, read (encodePair p) place (Path.below outer p.1) = pure (some p.2.reread)) (place : Place) :
    leaf o read outer place (encodePair p) = pure (some (p.1, p.2.reread)) := by
  have hempty : p.1.isEmpty = false := by simpa using hnamed
  have hlookup : (Value.lookup "field" (("field", .text p.1) :: p.2.encodeEntries)).asText? = some p.1 := rfl
  unfold encodePair at hread ⊢
  simp only [leaf, hlookup, hempty, Bool.false_eq_true, ↓reduceIte]
  show (if (!o.allows (Path.below outer p.1)) = true then _ else
    read (.object (("field", .text p.1) :: p.2.encodeEntries)) place (Path.below outer p.1) >>= _) = _
  rw [hallowed, hread]
  rfl

/-- A query is read back from its data when its conditions are. -/
theorem query_encode {read : ConditionReader} {outer : Option String} {pairs : Query}
    (hnamed : ∀ p ∈ pairs, p.1 ≠ "") (hallowed : ∀ p ∈ pairs, o.allows (Path.below outer p.1) = true)
    (hread : ∀ p ∈ pairs, ∀ place, read (encodePair p) place (Path.below outer p.1) = pure (some p.2.reread))
    (place : Place) : query o read outer place (Query.encode pairs) = pure (some (Query.reread pairs)) := by
  have heach := Walk.each_map (fun i item => leaf o read outer (place ++ [.index i]) item) encodePair
    (fun p => some (p.1, p.2.reread)) fun i p hp =>
      leaf_encodePair (hnamed p hp) (hallowed p hp) (hread p hp) (place ++ [.index i])
  simp only [query, Query.encode, Query.reread, encodePairs_eq, rereadPairs_eq, heach, Walk.pure_bind,
    List.filterMap_map, Function.comp_def, id_eq, List.filterMap_eq_map']

/-- A readable condition is read back from its data, whatever else the data has. -/
theorem condition_encode {room : Nat} {path : String} {c : Condition} (hc : c.Readable o room path)
    {entries : List (String × Value)} (hop : Value.lookup "op" entries = .text c.op.name)
    (hvalue : Value.lookup "value" entries = Value.lookup "value" c.encodeEntries) (place : Place) :
    condition o room (.object entries) place path = pure (some c.reread) := by
  induction hc generalizing entries place with
  | @compare room path op operand h =>
    have hoperand : Value.lookup "value" entries = operand.encode := hvalue
    simp only [condition, hop, Value.asText?, Operator.isEmpty_name, Operator.ofText?_name]
    simp only [Condition.op, hoperand, h]
    rfl
  | @combine room path op members _ ih =>
    have hdata : Value.lookup "value" entries = .list (members.map Condition.encode) := by
      rw [hvalue]
      simp only [Condition.encodeEntries, encodeItems_eq, List.map_map]
      rfl
    have hmembers := Walk.each_map
      (fun i item => condition o room item (place ++ [.key "value"] ++ [.index i]) path)
      Condition.encode (fun c => some c.reread) fun i c hc => ih c hc c.lookup_op_encodeEntries rfl _
    rw [condition, hop, Condition.reread_combine]
    simp only [Value.asText?, Operator.isEmpty_name, Operator.ofText?_name, Condition.op, hdata, hmembers,
      Walk.pure_bind, List.filterMap_map, Function.comp_def, id_eq, List.filterMap_eq_map']
    rfl
  | @nested room path op pairs hfields _ ih =>
    have hdata : Value.lookup "value" entries = Query.encode pairs := hvalue
    have hread : ∀ p ∈ pairs, ∀ place,
        condition o room (encodePair p) place (Path.below (some path) p.1) = pure (some p.2.reread) := by
      intro p hp place
      rw [encodePair]
      refine ih p hp ?_ ?_ place
      · exact p.2.lookup_op_encodeEntries
      · rfl
    rw [condition, hop]
    simp only [Value.asText?, Operator.isEmpty_name, Operator.ofText?_name, Condition.op, hdata,
      query_encode (fun p hp => (hfields p hp).1) (fun p hp => (hfields p hp).2) hread]
    rfl

/-- A statement is read back from the data of its queries. -/
theorem statement_encode {statement : List Query}
    (h : ∀ q ∈ statement, ∀ p ∈ q, ReadablePair o o.room none p) (place : Place) :
    Decode.statement o place (.list (statement.map Query.encode)) = pure (some (statement.map Query.reread)) := by
  have hread (i : Nat) : ∀ q ∈ statement, query o (condition o o.room) none (place ++ [.index i]) q.encode =
      pure (some q.reread) := by
    intro q hq
    refine query_encode (fun p hp => (h q hq p hp).named) (fun p hp => (h q hq p hp).allowed) ?_ _
    intro p hp place
    rw [encodePair]
    refine condition_encode (h q hq p hp).condition ?_ ?_ place
    · exact p.2.lookup_op_encodeEntries
    · rfl
  have hqueries := Walk.each_map (fun i item => query o (condition o o.room) none (place ++ [.index i]) item)
    Query.encode (fun q => some q.reread) hread
  simp only [Decode.statement, hqueries, Walk.pure_bind, List.filterMap_map, Function.comp_def, id_eq,
    List.filterMap_eq_map']

/-- The name in a sort is read as it is. -/
theorem sortName_eq {sort : List (String × Value)} {key : String} {v : Value} (hv : Value.lookup key sort = v)
    (h : v.IsSortName) : sortName sort key = pure v := by
  rw [sortName, hv]
  cases v with
  | null => rfl
  | text s => rfl
  | _ => exact absurd h id

theorem sortDirection_eq {sort : List (String × Value)} {d : Direction}
    (h : Value.lookup "direction" sort = .text d.name) : sortDirection sort = pure d := by
  rw [sortDirection, h]
  cases d <;> rfl

end Decode

/-! ## Filters -/

namespace Filter

/-- The data of given queries, a sort and a limit, as a filter is written. -/
def dataOf (statements : List (List Query)) (f : Filter) : List (String × Value) :=
  [("statements", .list (statements.map fun statement => .list (statement.map Query.encode))), ("sort", f.encodeSort),
    ("limit", f.limit)]

/-- A filter of given queries is written. -/
theorem encode_of_statements {f : Filter} {statements : List (List Query)}
    (h : f.statements = statementsOf statements) : f.encode = .ok (.object (dataOf statements f)) := by
  have halternatives (statement : List Query) :
      (statement.map Value.query).mapM encodeAlternative = .ok (statement.map Query.encode) := by
    rw [List.mapM_map]
    exact mapM_ok fun q _ => rfl
  have hstatements : (statementsOf statements).mapM
      (fun statement => (return .list (← statement.mapM encodeAlternative) : Except Fault Value)) =
        .ok (statements.map fun statement => .list (statement.map Query.encode)) := by
    rw [statementsOf, List.mapM_map]
    refine mapM_ok ?_
    intro statement _
    simp only [Function.comp_apply, halternatives]
    rfl
  rw [encode, h, hstatements]
  rfl

end Filter

namespace Decode

theorem statements_dataOf {o : DecodeOptions} {queries : List (List Query)}
    (h : ∀ statement ∈ queries, ∀ q ∈ statement, ∀ p ∈ q, ReadablePair o o.room none p) (f : Filter) :
    Decode.statements o (Filter.dataOf queries f) = pure (queries.map fun statement => statement.map Query.reread) := by
  have hstatement (i : Nat) : ∀ statement ∈ queries,
      Decode.statement o ([.key "statements"] ++ [.index i]) (.list (statement.map Query.encode)) =
        pure (some (statement.map Query.reread)) := by
    intro statement hstatement
    exact statement_encode (h statement hstatement) _
  have hread : Walk.each (fun i item => Decode.statement o ([.key "statements"] ++ [.index i]) item)
      (queries.map fun statement => Value.list (statement.map Query.encode)) =
        pure (queries.map fun statement => some (statement.map Query.reread)) := Walk.each_map _ _ _ hstatement
  have hlookup : (Filter.dataOf queries f).lookup "statements" =
      some (.list (queries.map fun statement => .list (statement.map Query.encode))) := by
    simp [Filter.dataOf]
  simp only [Decode.statements, hlookup, hread, Walk.pure_bind, List.filterMap_map, Function.comp_def, id_eq,
    List.filterMap_eq_map']

theorem sortEntries_dataOf (queries : List (List Query)) (f : Filter) :
    sortEntries (Filter.dataOf queries f) = pure [("field_id", f.sortField), ("sub_id", f.subId),
      ("sub_prop", f.subProp), ("direction", .text f.direction.name)] := rfl

theorem limit_dataOf (queries : List (List Query)) {f : Filter} {n : Int} (h : f.limit = .int n) (hn : 1 ≤ n) :
    Decode.limit (Filter.dataOf queries f) = pure f.limit := by
  have hlookup : (Filter.dataOf queries f).lookup "limit" = some f.limit := rfl
  have hpositive : limit.isPositive (.int n) = true := decide_eq_true hn
  simp only [Decode.limit, hlookup, h, hpositive, ↓reduceIte]

/-- The data of a readable filter is read as what comes back. -/
theorem filter_dataOf {o : DecodeOptions} {queries : List (List Query)} {f : Filter} (hf : f.Readable o queries) :
    Decode.filter o (.object (Filter.dataOf queries f)) = pure (some f.reread) := by
  obtain ⟨hstatements, hpairs, hsortField, hsubId, hsubProp, n, hlimit, hn⟩ := hf
  have hreread :
      f.reread.statements = Filter.statementsOf (queries.map fun statement => statement.map Query.reread) := by
    simp only [Filter.reread, hstatements, Filter.statementsOf, List.map_map, Function.comp_def, Value.reread,
      Query.reread]
  rw [Decode.filter, statements_dataOf hpairs, Walk.pure_bind, sortEntries_dataOf, Walk.pure_bind,
    sortName_eq (v := f.sortField) rfl hsortField, Walk.pure_bind, sortName_eq (v := f.subId) rfl hsubId,
    Walk.pure_bind, sortName_eq (v := f.subProp) rfl hsubProp, Walk.pure_bind,
    sortDirection_eq (d := f.direction) rfl, Walk.pure_bind, limit_dataOf _ hlimit hn, Walk.pure_bind, ← hreread]
  rfl

/-- The data of a filter has no unknown keys. -/
theorem noteUnknownKeys_dataOf (queries : List (List Query)) (f : Filter) :
    noteUnknownKeys (.object (Filter.dataOf queries f)) = pure () := by
  have hknown : unknownKeys (.object (Filter.dataOf queries f)) = [] := by
    simp [unknownKeys, Filter.dataOf, knownKeys, sortedTexts]
  rw [noteUnknownKeys, hknown]

end Decode

namespace Filter

/-- A readable filter is written, and its data is read as what comes back, without a record and without a problem. -/
theorem decode_encode_of_readable {o : DecodeOptions} {statements : List (List Query)} {f : Filter}
    (hf : f.Readable o statements) :
    ∃ data, f.encode = .ok data ∧ decode o data = pure f.reread ∧ problems o data = pure [] := by
  refine ⟨_, encode_of_statements hf.statements_eq, ?_, ?_⟩
  · rw [decode, Decode.noteUnknownKeys_dataOf, Decode.filter_dataOf hf]
    rfl
  · rw [problems, Decode.noteUnknownKeys_dataOf, Decode.filter_dataOf hf]
    rfl

end Filter

/-! ## Plain filters -/

/-- A plain condition is readable within its depth, where every field is allowed and relative dates are read. -/
theorem Condition.readable_of_plain {o : DecodeOptions} (ho : o.allowedFields = none)
    (hdays : o.readDays.ReadsWritten) {c : Condition} (hc : c.Has plainShape) {room : Nat} (hroom : c.depth 0 < room)
    (path : String) : c.Readable o room path := by
  have hallows (path : String) : o.allows path = true := by rw [DecodeOptions.allows, ho]
  induction hc generalizing room path with
  | @compare op operand h =>
    obtain ⟨room, rfl⟩ : ∃ n, room = n + 1 := ⟨room - 1, by omega⟩
    exact .compare (Decode.scalar_encode hdays h)
  | @combine op members _ _ ih =>
    obtain ⟨room, rfl⟩ : ∃ n, room = n + 1 := ⟨room - 1, by omega⟩
    have hdepth : ∀ c ∈ members, c.depth 0 < room := depth_combine_le.1 (Nat.le_of_lt_succ hroom)
    exact .combine fun c hc => ih c hc (hdepth c hc) path
  | @nested op pairs hfields _ ih =>
    obtain ⟨room, rfl⟩ : ∃ n, room = n + 1 := ⟨room - 1, by omega⟩
    have hdepth : ∀ p ∈ pairs, p.2.depth 0 < room := (depth_nested_le.1 (Nat.le_of_lt_succ hroom)).2
    exact .nested (fun p hp => ⟨hfields p hp, hallows _⟩) fun p hp => ih p hp (hdepth p hp) _

namespace Filter

variable {readDays : RelativeDate.Reader} {maxDepth : Int} {statements : List (List Query)} {f : Filter}

/-- A plain filter is readable within its depth, where relative dates are read. -/
theorem IsPlain.readable (hdays : readDays.ReadsWritten) (hf : f.IsPlain maxDepth statements) :
    f.Readable { maxDepth, readDays } statements where
  statements_eq := hf.statements_eq
  pairs := by
    intro statement hstatement q hq p hp
    obtain ⟨hnamed, hshape⟩ := hf.shape statement hstatement q hq p hp
    have hdepth := hf.depth statement hstatement q hq p hp
    refine ⟨hnamed, rfl, Condition.readable_of_plain rfl hdays hshape ?_ _⟩
    simp only [DecodeOptions.room]
    omega
  sortField := hf.sortField
  subId := hf.subId
  subProp := hf.subProp
  limit := hf.limit

/-- A plain filter is written, and its data is read as what comes back. -/
theorem decode_encode (hdays : readDays.ReadsWritten) (hf : f.IsPlain maxDepth statements) :
    ∃ data, f.encode = .ok data ∧ (decode { maxDepth, readDays } data).result = .ok f.reread := by
  obtain ⟨data, hdata, hdecode, -⟩ := decode_encode_of_readable (hf.readable hdays)
  exact ⟨data, hdata, congrArg Logged.result hdecode⟩

end Filter

/-! ## When a filter comes back as it was -/

/-- An operand comes back as it was when it is no illegible date and time. -/
theorem Comparison.Takes.reread_eq_iff {op : Comparison} {operand : Value} (h : op.Takes operand) :
    operand.reread = operand ↔ ∀ t, operand = .datetime t → t.isLegible = true := by
  cases operand with
  | datetime t =>
    rw [Value.reread]
    by_cases ht : t.isLegible = true
    · simp [ht]
    · simp [ht]
  | condition c => rcases op with _ | _ | _ | _ <;> exact absurd h id
  | query pairs => rcases op with _ | _ | _ | _ <;> exact absurd h id
  | _ => exact ⟨fun _ t ht => (nomatch ht), fun _ => rfl⟩

theorem rereadPairs_eq_iff {pairs : Query} (h : ∀ p ∈ pairs, p.2.reread = p.2 ↔ p.2.Has legibleShape) :
    rereadPairs pairs = pairs ↔ Query.Has legibleShape pairs := by
  have hpairs := List.map_inj_left (f := fun p : String × Condition => (p.1, p.2.reread)) (g := id) (l := pairs)
  rw [List.map_id] at hpairs
  rw [rereadPairs_eq, hpairs]
  refine forall₂_congr fun p hp => ⟨fun hback => ⟨trivial, (h p hp).1 (congrArg Prod.snd hback)⟩, fun hhas => ?_⟩
  rw [(h p hp).2 hhas.2, id_eq]

/-- A condition comes back as it was when every date and time in it is legible. -/
theorem Condition.reread_eq_iff {c : Condition} (hc : c.Has plainShape) : c.reread = c ↔ c.Has legibleShape := by
  induction hc with
  | @compare op operand h =>
    rw [has_compare_iff, Condition.reread]
    simp only [compare.injEq, true_and]
    exact h.reread_eq_iff
  | @combine op members _ _ ih =>
    have hinj : Function.Injective (List.map Value.condition) :=
      List.map_injective_iff.2 fun _ _ => Value.condition.inj
    have hmembers := List.map_inj_left (f := Condition.reread) (g := id) (l := members)
    rw [List.map_id] at hmembers
    rw [has_combine_iff, reread_combine]
    simp only [combine.injEq, true_and, hinj.eq_iff]
    rw [hmembers]
    exact forall₂_congr fun c hc => ⟨fun h => ⟨trivial, (ih c hc).1 h⟩, fun h => (ih c hc).2 h.2⟩
  | @nested op pairs _ _ ih =>
    rw [has_nested_iff, Condition.reread, Value.reread]
    simp only [nested.injEq, true_and, Value.query.injEq]
    exact rereadPairs_eq_iff ih

/-- Whether every date and time in some statements is legible. -/
def IsLegible (statements : List (List Query)) : Prop :=
  ∀ statement ∈ statements, ∀ q ∈ statement, Query.Has legibleShape q

/-- A plain filter comes back as it was when every date and time in it is legible. -/
theorem Filter.reread_eq_iff {maxDepth : Int} {statements : List (List Query)} {f : Filter}
    (hf : f.IsPlain maxDepth statements) : f.reread = f ↔ IsLegible statements := by
  have hqueries : ∀ statement ∈ statements,
      ((statement.map Value.query).map Value.reread = statement.map Value.query ↔
        ∀ q ∈ statement, Query.Has legibleShape q) := by
    intro statement hstatement
    rw [List.map_map, List.map_inj_left]
    refine forall₂_congr ?_
    intro q hq
    rw [← rereadPairs_eq_iff fun p hp => Condition.reread_eq_iff (hf.shape statement hstatement q hq p hp).2]
    exact ⟨Value.query.inj, congrArg Value.query⟩
  have hstatements : f.statements.map (fun statement => statement.map Value.reread) = f.statements ↔
      IsLegible statements := by
    rw [hf.statements_eq, statementsOf, List.map_map, List.map_inj_left]
    exact forall₂_congr hqueries
  rw [← hstatements]
  refine ⟨congrArg Filter.statements, ?_⟩
  intro h
  rw [reread, h]

/-- The data of a plain filter is read as the filter itself exactly when every date and time in it is legible: an offset
of more than nothing and less than a second is lost. -/
theorem Filter.decode_encode_eq_iff {readDays : RelativeDate.Reader} (hdays : readDays.ReadsWritten) {maxDepth : Int}
    {statements : List (List Query)} {f : Filter} (hf : f.IsPlain maxDepth statements) :
    ∃ data, f.encode = .ok data ∧ (decode { maxDepth, readDays } data).result = .ok f.reread ∧
      ((decode { maxDepth, readDays } data).result = .ok f ↔ IsLegible statements) := by
  obtain ⟨data, hdata, hdecode⟩ := decode_encode hdays hf
  refine ⟨data, hdata, hdecode, ?_⟩
  rw [hdecode, ← reread_eq_iff hf]
  exact ⟨Except.ok.inj, congrArg Except.ok⟩

/-- A filter of one condition in one query. -/
def Filter.ofCondition (field : String) (c : Condition) : Filter :=
  { statements := statementsOf [[[(field, c)]]] }

/-- A filter of one condition is plain when the condition is. -/
theorem Filter.isPlain_ofCondition {maxDepth : Int} {field : String} {c : Condition} (hfield : field ≠ "")
    (hc : c.Has plainShape) (hdepth : (c.depth 0 : Int) ≤ maxDepth) :
    (ofCondition field c).IsPlain maxDepth [[[(field, c)]]] where
  statements_eq := rfl
  shape := by simpa [Query.Has, plainShape] using ⟨hfield, hc⟩
  depth := by simpa using hdepth
  sortField := trivial
  subId := trivial
  subProp := trivial
  limit := ⟨10, rfl, by decide⟩

/-- A collection searched for an element seen in the last days, though not at a given time. -/
def Condition.seenLately : Condition :=
  .find [("seen", .combine .all ([.within .gt (.daysAgo 3), .neq (.datetime
    ⟨{ year := 2024, month := 6, day := 1 }, .midnight, some { micros := 3600000000 }⟩)].map .condition))]

/-- A date and time a microsecond from universal time. -/
def DateTime.barelyOff : DateTime :=
  ⟨{ year := 2024, month := 6, day := 1 }, .midnight, some { micros := 1 }⟩

/-- A filter with a relative date and with a date and time an hour from universal time comes back as it was. -/
theorem Filter.decode_encode_seenLately :
    (ofCondition "visits" .seenLately).IsPlain 2 [[[("visits", .seenLately)]]] ∧
      IsLegible [[[("visits", .seenLately)]]] ∧ ∃ data, (ofCondition "visits" .seenLately).encode = .ok data ∧
        (decode { maxDepth := 2 } data).result = .ok (ofCondition "visits" .seenLately).reread ∧
        ((decode { maxDepth := 2 } data).result = .ok (ofCondition "visits" .seenLately) ↔
          IsLegible [[[("visits", .seenLately)]]]) := by
  have hplain : Condition.seenLately.Has plainShape := by
    refine Condition.has_nested_iff.2 ?_
    intro p hp
    obtain rfl := List.mem_singleton.1 hp
    refine ⟨(by decide : "seen" ≠ ""), Condition.has_combine_iff.2 ?_⟩
    simp only [List.forall_mem_cons, List.not_mem_nil, false_implies, implies_true, and_true]
    exact ⟨⟨trivial, .compare trivial⟩, ⟨trivial, .compare trivial⟩⟩
  have hfilter : (ofCondition "visits" .seenLately).IsPlain 2 [[[("visits", .seenLately)]]] :=
    isPlain_ofCondition (by decide) hplain (by decide)
  refine ⟨hfilter, ?_, decode_encode_eq_iff RelativeDate.readsWritten_readLoosely hfilter⟩
  rw [← reread_eq_iff hfilter]
  rfl

/-- A filter with a date and time a microsecond from universal time does not come back as it was. -/
theorem Filter.decode_encode_barelyOff :
    (ofCondition "a" (.eq (.datetime .barelyOff))).IsPlain 32 [[[("a", .eq (.datetime .barelyOff))]]] ∧
      ¬∃ data, (ofCondition "a" (.eq (.datetime .barelyOff))).encode = .ok data ∧
        (decode { maxDepth := 32 } data).result = .ok (ofCondition "a" (.eq (.datetime .barelyOff))) := by
  have hfilter : (ofCondition "a" (.eq (.datetime .barelyOff))).IsPlain 32 [[[("a", .eq (.datetime .barelyOff))]]] :=
    isPlain_ofCondition (by decide) (.compare trivial) (by decide)
  refine ⟨hfilter, ?_⟩
  rintro ⟨data, hdata, hdecode⟩
  obtain ⟨written, hwritten, hread⟩ := decode_encode RelativeDate.readsWritten_readLoosely hfilter
  obtain rfl := Except.ok.inj (hdata.symm.trans hwritten)
  have hlegible := (reread_eq_iff hfilter).1 (Except.ok.inj (hread.symm.trans hdecode))
  have hhas := hlegible _ (.head _) _ (.head _) _ (.head _)
  have hbarely := Condition.has_compare_iff.1 hhas.2 .barelyOff rfl
  exact absurd hbarely (by decide)

end Winnow
