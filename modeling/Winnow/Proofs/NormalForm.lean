import Winnow.Proofs.Nesting
import Winnow.Proofs.RoundTrip

/-!
# The normal form of filters

Data may spell a filter in many ways: operators and directions in any case of letters, dates as texts, relative dates
under two keys, a sort that is left out. What is read of JSON data is written in one of them, its normal form, and that
is read as the same filter again, under the same options and with nothing to tell (`Filter.decode_encode_decoded`).
-/

namespace Winnow

/-! ## Operands that were read -/

namespace Comparison.Reads

variable {o : DecodeOptions} {op : Comparison} {operand : Value}

/-- An operand that was read comes back as it was. -/
theorem reread_eq (h : op.Reads operand) : operand.reread = operand := by
  cases h with
  | moment _ hread =>
    obtain ⟨t, rfl, -, hlegible⟩ | ⟨d, rfl, -⟩ := of_readCanonical hread
    · rw [Value.reread, if_pos hlegible]
    · rfl
  | _ => rfl

/-- An operand that was read is read again from its data, if relative dates are. -/
theorem scalar_encode (hdays : o.readDays.ReadsWritten) (h : op.Reads operand) (place : Place) :
    Decode.scalar o op place operand.encode = pure (some (.compare op operand.reread)) := by
  rw [h.reread_eq]
  cases h with
  | null | bool | int | float => rcases op with _ | _ | _ | _ <;> rfl
  | text hdates hnone =>
    rw [Value.encode, Decode.scalar_text hdates, hnone]
    · rfl
    all_goals simp
  | @moment _ s _ hdates hread =>
    have hencode : operand.encode = .text s := by
      obtain ⟨t, rfl, hiso, -⟩ | ⟨d, rfl, hiso⟩ := of_readCanonical hread
      · exact congrArg Value.text hiso
      · exact congrArg Value.text hiso
    rw [hencode, Decode.scalar_text hdates, hread, Option.getD_some]
  | start s => rfl
  | daysAgo b days =>
    have htakes : (Comparison.bound b).Takes (.daysAgo days) := trivial
    exact Decode.scalar_encode hdays htakes place

end Comparison.Reads

/-! ## Conditions and filters that were read -/

namespace Condition

variable {o : DecodeOptions} {room : Nat} {path : String} {c : Condition}

/-- An accepted condition comes back as it was. -/
theorem Accepted.reread_eq (h : c.Accepted o room path) : c.reread = c := by
  induction h with
  | compare hoperand => rw [reread, hoperand.reread_eq]
  | @combine room path op members _ ih =>
    rw [reread_combine, List.map_congr_left ih, List.map_id']
  | @nested room path op pairs _ _ ih =>
    have hpairs : pairs.map (fun p => (p.1, p.2.reread)) = pairs.map id :=
      List.map_congr_left fun p hp => Prod.ext rfl (ih p hp)
    rw [reread, Value.reread, rereadPairs_eq, hpairs, List.map_id]

/-- An accepted condition is readable where relative dates are read. -/
theorem Accepted.readable (hdays : o.readDays.ReadsWritten) (h : c.Accepted o room path) :
    c.Readable o room path := by
  induction h with
  | compare hoperand => exact .compare (hoperand.scalar_encode hdays)
  | combine _ ih => exact .combine ih
  | nested hfields _ ih => exact .nested hfields ih

end Condition

namespace Filter

variable {o : DecodeOptions} {f : Filter}

/-- An accepted filter is readable where relative dates are read. -/
theorem Accepted.readable (hdays : o.readDays.ReadsWritten) (hf : f.Accepted o) :
    ∃ statements, f.Readable o statements := by
  obtain ⟨⟨statements, hstatements, hpairs⟩, hsortField, hsubId, hsubProp, n, hn, hlimit⟩ := hf
  refine ⟨statements, hstatements, ?_, hsortField, hsubId, hsubProp, n, hlimit, hn⟩
  intro statement hstatement q hq p hp
  obtain ⟨hnamed, hallowed, hcondition⟩ := hpairs statement hstatement q hq p hp
  exact ⟨hnamed, hallowed, hcondition.readable hdays⟩

/-- An accepted filter comes back as it was. -/
theorem Accepted.reread_eq (hf : f.Accepted o) : f.reread = f := by
  obtain ⟨statements, hstatements, hpairs⟩ := hf.statements
  have hquery : ∀ statement ∈ statements, ∀ q ∈ statement, (Value.query q).reread = .query q := by
    intro statement hstatement q hq
    have hback : ∀ p ∈ q, (p.1, p.2.reread) = id p := fun p hp =>
      Prod.ext rfl (hpairs statement hstatement q hq p hp).condition.reread_eq
    rw [Value.reread, rereadPairs_eq, List.map_congr_left hback, List.map_id]
  have hback : f.statements.map (fun statement => statement.map Value.reread) = f.statements := by
    rw [hstatements, statementsOf, List.map_map]
    refine List.map_congr_left fun statement hstatement => ?_
    rw [Function.comp_apply, List.map_map]
    exact List.map_congr_left (hquery statement hstatement)
  rw [reread, hback]

end Filter

/-! ## What is equal to itself -/

/-- A value that a test for equality finds to be equal to itself. -/
structure Value.EqualsItself (v : Value) : Prop where
  answered : v.signals v = false
  same : v.same v = true

namespace Value

/-- Values are equal to themselves as a tuple when each one is. -/
theorem equalsItself_tuple {items : List Value} (h : ∀ v ∈ items, v.EqualsItself) : (tuple items).EqualsItself := by
  induction items with
  | nil => exact ⟨rfl, rfl⟩
  | cons v rest ih =>
    obtain ⟨hv, hrest⟩ := List.forall_mem_cons.1 h
    obtain ⟨hanswered, hsame⟩ := ih hrest
    refine ⟨?_, ?_⟩
    · show (v.signals v || v.same v && (tuple rest).signals (.tuple rest)) = false
      rw [hv.answered, hanswered, Bool.and_false, Bool.or_false]
    · show (v.same v && (tuple rest).same (.tuple rest)) = true
      rw [hv.same, hsame, Bool.and_true]

/-- A query is equal to itself when each of its conditions is. -/
theorem equalsItself_query {pairs : Query} (h : ∀ p ∈ pairs, (condition p.2).EqualsItself) :
    (query pairs).EqualsItself := by
  induction pairs with
  | nil => exact ⟨rfl, rfl⟩
  | cons p rest ih =>
    obtain ⟨hp, hrest⟩ := List.forall_mem_cons.1 h
    obtain ⟨hanswered, hsame⟩ := ih hrest
    obtain ⟨field, c⟩ := p
    refine ⟨?_, ?_⟩
    · show (field == field && ((condition c).signals (.condition c) || (condition c).same (.condition c) &&
        (query rest).signals (.query rest))) = false
      rw [hp.answered, hanswered, Bool.and_false, Bool.or_false, Bool.and_false]
    · show (field == field && (condition c).same (.condition c) && (query rest).same (.query rest)) = true
      rw [hp.same, hsame, beq_self_eq_true, Bool.and_true, Bool.and_true]

end Value

/-- The shape of conditions whose operands are equal to themselves. -/
def selfEqualShape : Shape where
  operand := fun _ operand => operand.EqualsItself
  field := fun _ => True

/-- A condition is equal to itself when each operand in it is. -/
theorem Condition.equalsItself {c : Condition} (hc : c.Has selfEqualShape) : (Value.condition c).EqualsItself := by
  induction hc with
  | @compare op operand h =>
    refine ⟨?_, ?_⟩
    · show (op == op && operand.signals operand) = false
      rw [h.answered, Bool.and_false]
    · show (op == op && operand.same operand) = true
      rw [h.same, beq_self_eq_true, Bool.and_true]
  | @combine op members _ _ ih =>
    have hmembers : (Value.tuple (members.map .condition)).EqualsItself :=
      Value.equalsItself_tuple (List.forall_mem_map.2 ih)
    refine ⟨?_, ?_⟩
    · show (op == op && (Value.tuple (members.map .condition)).signals (.tuple (members.map .condition))) = false
      rw [hmembers.answered, Bool.and_false]
    · show (op == op && (Value.tuple (members.map .condition)).same (.tuple (members.map .condition))) = true
      rw [hmembers.same, beq_self_eq_true, Bool.and_true]
  | @nested op pairs _ _ ih =>
    have hquery := Value.equalsItself_query ih
    refine ⟨?_, ?_⟩
    · show (op == op && (Value.query pairs).signals (.query pairs)) = false
      rw [hquery.answered, Bool.and_false]
    · show (op == op && (Value.query pairs).same (.query pairs)) = true
      rw [hquery.same, beq_self_eq_true, Bool.and_true]

theorem Quantity.same_self_ofBinary64 {x : Binary64} (h : x ≠ .nan) :
    (Quantity.ofBinary64 x).same (.ofBinary64 x) = true := by
  cases x with
  | nan => exact absurd rfl h
  | infinite negative => cases negative <;> rfl
  | finite negative m e => simp [ofBinary64, same, compare, compareFinite, compareScaled]

/-- An operand that was read is equal to itself unless it is a NaN. -/
theorem Comparison.Reads.equalsItself {op : Comparison} {operand : Value} (h : op.Reads operand)
    (hnumber : operand ≠ .float .nan) : operand.EqualsItself := by
  cases h with
  | null => exact ⟨rfl, rfl⟩
  | bool op b => cases b <;> exact ⟨rfl, rfl⟩
  | int op n => exact ⟨rfl, (Quantity.same_ofInt n n).trans (decide_eq_true rfl)⟩
  | float op x => exact ⟨rfl, Quantity.same_self_ofBinary64 fun hnan => hnumber (congrArg Value.float hnan)⟩
  | text | start => exact ⟨rfl, beq_self_eq_true _⟩
  | moment _ hread =>
    obtain ⟨t, rfl, -, -⟩ | ⟨d, rfl, -⟩ := of_readCanonical hread
    · refine ⟨rfl, ?_⟩
      show (t.order? t == some .eq) = true
      simp [DateTime.order?]
    · exact ⟨rfl, beq_self_eq_true d⟩
  | daysAgo b days => exact ⟨rfl, beq_self_eq_true days⟩

/-! ## Numbers that were read -/

namespace Value

/-- The values right inside a list or an object. -/
def inner : Value → List Value
  | .list items => items
  | .object entries => entries.map (·.2)
  | _ => []

/-- The parts of a value: itself, and what is right inside a part of it. -/
inductive HasPart (data : Value) : Value → Prop where
  | self : HasPart data data
  | inner {v w : Value} : HasPart data v → w ∈ v.inner → HasPart data w

/-- What is null or a part of some data passes on to its own parts. -/
theorem inherited_hasPart (data : Value) : Inherited fun v => v = .null ∨ data.HasPart v where
  item := by
    rintro items (hnull | hlist) v hv
    · cases hnull
    · exact .inr (hlist.inner hv)
  lookup := by
    rintro entries (hnull | hobject) key
    · cases hnull
    · unfold Value.lookup
      cases hfound : entries.lookup key with
      | none => exact .inl rfl
      | some v => exact .inr (hobject.inner (List.mem_map_of_mem (mem_of_lookup hfound)))

/-- The parts of what is right inside a value are parts of it. -/
theorem HasPart.of_inner {data v w : Value} (hw : w ∈ data.inner) (h : w.HasPart v) : data.HasPart v := by
  induction h with
  | self => exact .inner .self hw
  | inner _ hu ih => exact ih.inner hu

/-- A part of a value is the value itself or a part of what is right inside it. -/
theorem hasPart_iff (data v : Value) : data.HasPart v ↔ v = data ∨ ∃ w ∈ data.inner, w.HasPart v := by
  constructor
  · intro h
    induction h with
    | self => exact .inl rfl
    | inner _ hw ih =>
      obtain rfl | ⟨u, hu, hpart⟩ := ih
      · exact .inr ⟨_, hw, .self⟩
      · exact .inr ⟨u, hu, hpart.inner hw⟩
  · rintro (rfl | ⟨w, hw, hpart⟩)
    · exact .self
    · exact .of_inner hw hpart

end Value

/-- The shape of conditions whose floating-point numbers are parts of some data. -/
def copiedShape (data : Value) : Shape where
  operand := fun _ operand => ∀ x, operand = .float x → data.HasPart (.float x)
  field := fun _ => True

/-- The floating-point numbers in the conditions that are read are parts of the data. -/
theorem Decode.builds_copied (o : DecodeOptions) (data : Value) :
    Builds o (fun v => v = .null ∨ data.HasPart v) fun _ _ c => c.Has (copiedShape data) where
  compare := by
    intro room path op place value hvalue
    unfold scalar
    -- A text is read as a date at most, so a number can only be the operand itself.
    split
    · split
      · refine .pure fun c hc => ?_
        cases hc
        exact .compare nofun
      · exact .report _ _ _
    · exact .report _ _ _
    · exact .report _ _ _
    · next s =>
      refine .pure fun c hc => ?_
      cases hc
      refine .compare fun x hx => ?_
      split at hx
      · cases hread : readCanonical? s with
        | none => simp [hread] at hx
        | some v =>
          obtain ⟨t, rfl, -, -⟩ | ⟨d, rfl, -⟩ := of_readCanonical hread
          · simp [hread] at hx
          · simp [hread] at hx
      · cases hx
    · refine .pure fun c hc => ?_
      cases hc
      refine .compare fun x hx => ?_
      subst hx
      exact hvalue.resolve_left nofun
  combine := fun hmembers => .combine (fun _ _ => trivial) hmembers
  nested := fun _ hparts => .nested (fun _ _ => trivial) hparts

/-! ## Filters that were read -/

theorem Value.IsSortName.equalsItself {v : Value} (h : v.IsSortName) : v.EqualsItself := by
  cases v with
  | null => exact ⟨rfl, rfl⟩
  | text s => exact ⟨rfl, beq_self_eq_true s⟩
  | _ => exact absurd h id

/-- A filter of queries whose operands are equal to themselves is equal to itself. -/
theorem Filter.same?_self {statements : List (List Query)} {f : Filter}
    (hstatements : f.statements = statementsOf statements)
    (hshape : ∀ statement ∈ statements, ∀ q ∈ statement, ∀ p ∈ q, p.2.Has selfEqualShape)
    (hsortField : f.sortField.IsSortName) (hsubId : f.subId.IsSortName) (hsubProp : f.subProp.IsSortName) {n : Int}
    (hlimit : f.limit = .int n) : f.same? f = some true := by
  have hstatementsItself : (Value.tuple (f.statements.map .tuple)).EqualsItself := by
    refine Value.equalsItself_tuple ?_
    rw [hstatements]
    intro v hv
    simp only [statementsOf, List.map_map, List.mem_map, Function.comp_apply] at hv
    obtain ⟨statement, hstatement, rfl⟩ := hv
    refine Value.equalsItself_tuple (List.forall_mem_map.2 fun q hq => ?_)
    exact Value.equalsItself_query fun p hp => Condition.equalsItself (hshape statement hstatement q hq p hp)
  have hlimitItself : f.limit.EqualsItself := by
    rw [hlimit]
    exact (Comparison.Reads.int .eq n).equalsItself (by simp)
  have hparts : (Value.tuple f.parts).EqualsItself := by
    refine Value.equalsItself_tuple ?_
    simp only [parts, List.forall_mem_cons, List.not_mem_nil, false_implies, implies_true, and_true]
    exact ⟨hstatementsItself, hsortField.equalsItself, hsubId.equalsItself, hsubProp.equalsItself,
      ⟨rfl, beq_self_eq_true f.direction.name⟩, hlimitItself⟩
  rw [same?, Value.same?, hparts.answered, hparts.same]
  rfl

namespace Filter

variable {o : DecodeOptions} {data : Value} {f : Filter}

/-- A filter that was read of JSON data without a NaN is equal to itself. -/
theorem same?_decoded (hdata : data.IsJson) (h : (decode o data).result = .ok f)
    (hnumbers : ¬data.HasPart (.float .nan)) : f.same? f = some true := by
  have hf := accepted_of_decode hdata h
  obtain ⟨statements, hstatements, hcopied⟩ := of_decode h
    (Decode.filter_yields_statements (Value.inherited_hasPart data) (Decode.builds_copied o data) (.inr .self))
  obtain ⟨n, -, hlimit⟩ := hf.limit
  refine same?_self hstatements ?_ hf.sortField hf.subId hf.subProp hlimit
  intro statement hstatement q hq p hp
  have hmem := (mem_conditions hstatements).2 ⟨statement, hstatement, q, hq, p, hp, rfl⟩
  refine (hf.of_mem_conditions hmem).1.both (hcopied statement hstatement q hq p hp).2 ?_ (fun _ _ _ => trivial)
    fun _ _ _ _ => trivial
  intro op operand hreads hpart
  exact hreads.equalsItself fun hnan => hnumbers (hpart .nan hnan)

/-- Reading ends in a normal form, whatever else is read as a relative date: a filter that JSON data is read as is
written as data that is read as the same filter under the same options, without a record and without a problem. The
filter is found equal to itself if the data has no NaN. -/
theorem decode_encode_decoded (hdays : o.readDays.ReadsWritten) (hdata : data.IsJson)
    (h : (decode o data).result = .ok f) :
    ∃ written, f.encode = .ok written ∧ decode o written = pure f ∧ problems o written = pure [] ∧
      (¬data.HasPart (.float .nan) → f.same? f = some true) := by
  have hf := accepted_of_decode hdata h
  obtain ⟨statements, hreadable⟩ := hf.readable hdays
  obtain ⟨written, hencode, hdecode, hproblems⟩ := decode_encode_of_readable hreadable
  rw [hf.reread_eq] at hdecode
  exact ⟨written, hencode, hdecode, hproblems, same?_decoded hdata h⟩

/-- Data with names in small letters, a date, a relative date under its other key as a loose numeral, and an unknown
key. -/
def looseData : Value :=
  .object [("statements", .list [.list [.list [
    .object [("field", .text "visits"), ("op", .text "find"), ("value", .list [
      .object [("field", .text "seen"), ("op", .text "all"), ("value", .list [
        .object [("op", .text "gte"), ("value", .object [("days_ago", .text " 7 ")])],
        .object [("op", .text "neq"), ("value", .text "2023-11-20")]])]])],
    .object [("field", .text "rate"), ("op", .text "lt"), ("value", .float (.finite false 1 (-1)))]]]]),
    ("sort", .object [("field_id", .text "rate"), ("direction", .text "desc")]), ("colour", .text "red")]

/-- Options that allow the fields of the loose data and no deeper conditions. -/
def looseOptions : DecodeOptions :=
  { allowedFields := some ["rate", "visits", "visits.seen"], maxDepth := 2 }

/-- The filter that loose data is read as. -/
def ofLooseData : Filter :=
  { statements := statementsOf [[[
      ("visits", .find [("seen", .combine .all
        ([.within .gte (.daysAgo 7), .neq (.date { year := 2023, month := 11, day := 20 })].map .condition))]),
      ("rate", .within .lt (.float (.finite false 1 (-1))))]]]
    sortField := .text "rate"
    direction := .desc }

theorem decode_encode_decoded_loose :
    looseData.IsJson ∧ (decode looseOptions looseData).result = .ok ofLooseData ∧ ¬looseData.HasPart (.float .nan) ∧
      ∃ written, ofLooseData.encode = .ok written ∧ decode looseOptions written = pure ofLooseData ∧
        problems looseOptions written = pure [] ∧
        (¬looseData.HasPart (.float .nan) → ofLooseData.same? ofLooseData = some true) := by
  have hdata : looseData.IsJson := by
    simp [looseData, Value.isJsonOf_object_iff, Value.isJsonOf_list_iff, Value.IsJsonOf.text, Value.IsJsonOf.float]
  have hdecode : (decode looseOptions looseData).result = .ok ofLooseData := result_decode rfl
  have hnumbers : ¬looseData.HasPart (.float .nan) := by
    simp [looseData, Value.hasPart_iff (.object _), Value.hasPart_iff (.list _), Value.hasPart_iff (.text _),
      Value.hasPart_iff (.float _), Value.inner]
  exact ⟨hdata, hdecode, hnumbers, decode_encode_decoded RelativeDate.readsWritten_readLoosely hdata hdecode⟩

end Filter

end Winnow
