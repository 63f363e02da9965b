import Winnow.Proofs.Matching
import Winnow.Proofs.NormalForm
import Winnow.Session

/-!
# Sessions that can be written at any time

A session replaces parts of a filter, continues it after items, and writes it and reads it back. As long as the parts
and the items are ones that data has a form for (`Session.Tame`), every filter on the way has one too and is read back
as it is (`Session.serialisable_of_reachable`). The element that a sort looks at must not be named by the text of a
date: a page asks for that element by its name, and the name is read back as the date
(`Session.continueAfter_datedElement`).
-/

namespace Winnow

/-! ## Filters that a session is about -/

/-- A filter that data has a form for, whatever page of it is asked for. -/
structure Filter.IsWellFormed (f : Filter) : Prop where
  plain : ∃ statements, f.IsPlain 32 statements
  subId : f.subId.IsScalar

/-- Whether every date and time in the conditions of a filter is legible. -/
def Filter.DatesLegible (f : Filter) : Prop :=
  ∀ c ∈ f.conditions, c.Has legibleShape

/-- A value that is written and read back as it is. -/
structure Value.IsWritten (v : Value) : Prop where
  scalar : v.IsScalar
  legible : ∀ t, v = .datetime t → t.isLegible = true

/-- A scalar that is no date is written and read back as it is. -/
theorem Value.IsScalar.isWritten {v : Value} (h : v.IsScalar) (hdate : v.isTemporal = false) : v.IsWritten := by
  refine ⟨h, ?_⟩
  rintro t rfl
  cases hdate

theorem Value.IsWritten.null : Value.null.IsWritten :=
  Value.IsScalar.isWritten (v := .null) trivial rfl

/-- The shape of conditions that are written and read back as they are. -/
def writtenShape : Shape where
  operand := fun op operand => op.Takes operand ∧ ∀ t, operand = .datetime t → t.isLegible = true

theorem Condition.Has.plain {c : Condition} (h : c.Has writtenShape) : c.Has plainShape :=
  h.mono (fun _ _ hv => hv.1) (fun _ hfield => hfield) fun _ _ _ => trivial

theorem Condition.Has.legible {c : Condition} (h : c.Has writtenShape) : c.Has legibleShape :=
  h.mono (fun _ _ hv => hv.2) (fun _ _ => trivial) fun _ _ _ => trivial

/-! ## Reading back what was written -/

/-- What comes back from an operand that data has a form for is one again. -/
theorem Comparison.Takes.reread {op : Comparison} {operand : Value} (h : op.Takes operand) :
    op.Takes operand.reread := by
  cases operand with
  | datetime t =>
    rw [Value.reread]
    by_cases ht : t.isLegible = true
    · rw [if_pos ht]
      exact h
    · have hnone : readCanonical? t.toIso = none := by rw [readCanonical?_datetime, if_neg ht]
      rw [if_neg ht]
      cases op with
      | startsWith => exact absurd h id
      | _ => exact hnone
  | condition c => rcases op with _ | _ | _ | _ <;> exact absurd h id
  | query pairs => rcases op with _ | _ | _ | _ <;> exact absurd h id
  | _ => exact h

/-- An operand that data has a form for is equal to itself. -/
theorem Comparison.Takes.equalsItself {op : Comparison} {operand : Value} (h : op.Takes operand) :
    operand.EqualsItself := by
  cases operand with
  | null => exact ⟨rfl, rfl⟩
  | bool b => cases b <;> exact ⟨rfl, rfl⟩
  | int n => exact ⟨rfl, (Quantity.same_ofInt n n).trans (decide_eq_true rfl)⟩
  | text s => exact ⟨rfl, beq_self_eq_true s⟩
  | date d => exact ⟨rfl, beq_self_eq_true d⟩
  | datetime t => exact ⟨rfl, by simp [Value.same, Value.sameScalar, Value.asQuantity?, Value.asText?, DateTime.order?]⟩
  | daysAgo days => exact ⟨rfl, beq_self_eq_true days⟩
  | _ => rcases op with _ | _ | _ | _ <;> exact absurd h id

/-- What comes back from a plain condition is a plain condition, and no deeper. -/
theorem Condition.reread_plain {c : Condition} (hc : c.Has plainShape) :
    c.reread.Has plainShape ∧ c.reread.depth 0 ≤ c.depth 0 := by
  induction hc with
  | compare h => exact ⟨.compare h.reread, Nat.le_refl 0⟩
  | @combine op members _ _ ih =>
    rw [reread_combine]
    refine ⟨has_combine_iff.2 ?_, depth_combine_le.2 ?_⟩
    · intro c hc
      obtain ⟨d, hd, rfl⟩ := List.mem_map.1 hc
      exact ⟨trivial, (ih d hd).1⟩
    · intro c hc
      obtain ⟨d, hd, rfl⟩ := List.mem_map.1 hc
      exact Nat.lt_of_le_of_lt (ih d hd).2 (depth_lt_of_mem op hd)
  | @nested op pairs hfields _ ih =>
    rw [reread, Value.reread, rereadPairs_eq]
    refine ⟨has_nested_iff.2 ?_, depth_nested_le.2 ⟨Nat.zero_le _, ?_⟩⟩
    · intro p hp
      obtain ⟨r, hr, rfl⟩ := List.mem_map.1 hp
      exact ⟨hfields r hr, (ih r hr).1⟩
    · intro p hp
      obtain ⟨r, hr, rfl⟩ := List.mem_map.1 hp
      exact Nat.lt_of_le_of_lt (ih r hr).2 (depth_lt_of_mem_query op hr)

namespace Filter

variable {f : Filter}

/-- What comes back from a well-formed filter is well formed. -/
theorem IsWellFormed.reread (hf : f.IsWellFormed) : f.reread.IsWellFormed := by
  obtain ⟨⟨statements, hstatements, hshape, hdepth, hsortField, hsubId, hsubProp, hlimit⟩, helement⟩ := hf
  refine ⟨⟨statements.map fun statement => statement.map Query.reread, ?_, ?_, ?_, hsortField, hsubId, hsubProp,
    hlimit⟩, helement⟩
  · simp only [Filter.reread, hstatements, statementsOf, List.map_map, Function.comp_def, Value.reread, Query.reread]
  · intro statement hstatement q hq p hp
    obtain ⟨original, horiginal, rfl⟩ := List.mem_map.1 hstatement
    obtain ⟨r, hr, rfl⟩ := List.mem_map.1 hq
    rw [Query.reread, rereadPairs_eq] at hp
    obtain ⟨pair, hpair, rfl⟩ := List.mem_map.1 hp
    obtain ⟨hnamed, hplain⟩ := hshape original horiginal r hr pair hpair
    exact ⟨hnamed, (Condition.reread_plain hplain).1⟩
  · intro statement hstatement q hq p hp
    obtain ⟨original, horiginal, rfl⟩ := List.mem_map.1 hstatement
    obtain ⟨r, hr, rfl⟩ := List.mem_map.1 hq
    rw [Query.reread, rereadPairs_eq] at hp
    obtain ⟨pair, hpair, rfl⟩ := List.mem_map.1 hp
    have hle := (Condition.reread_plain (hshape original horiginal r hr pair hpair).2).2
    have hmax := hdepth original horiginal r hr pair hpair
    simp only
    omega

theorem datesLegible_iff {statements : List (List Query)} (hstatements : f.statements = statementsOf statements) :
    f.DatesLegible ↔ IsLegible statements := by
  constructor
  · intro h statement hstatement q hq p hp
    exact ⟨trivial, h p.2 ((mem_conditions hstatements).2 ⟨statement, hstatement, q, hq, p, hp, rfl⟩)⟩
  · intro h c hc
    obtain ⟨statement, hstatement, q, hq, p, hp, rfl⟩ := (mem_conditions hstatements).1 hc
    exact (h statement hstatement q hq p hp).2

/-- A well-formed filter with legible dates comes back as it was. -/
theorem IsWellFormed.reread_eq (hf : f.IsWellFormed) (hdates : f.DatesLegible) : f.reread = f := by
  obtain ⟨statements, hplain⟩ := hf.plain
  exact (reread_eq_iff hplain).2 ((datesLegible_iff hplain.statements_eq).1 hdates)

/-- A well-formed filter is equal to itself. -/
theorem IsWellFormed.same?_self (hf : f.IsWellFormed) : f.same? f = some true := by
  obtain ⟨statements, hplain⟩ := hf.plain
  obtain ⟨n, hlimit, -⟩ := hplain.limit
  refine Filter.same?_self hplain.statements_eq ?_ hplain.sortField hplain.subId hplain.subProp hlimit
  intro statement hstatement q hq p hp
  have hc := (hplain.shape statement hstatement q hq p hp).2
  exact hc.mono (fun _ _ h => h.equalsItself) (fun _ _ => trivial) fun _ _ _ => trivial

/-- A well-formed filter is written as data without a problem, which is read as what comes back. -/
theorem IsWellFormed.encode {readDays : RelativeDate.Reader} (hdays : readDays.ReadsWritten) (hf : f.IsWellFormed) :
    ∃ data, f.encode = .ok data ∧ decode { readDays } data = pure f.reread ∧ problems { readDays } data = pure [] := by
  obtain ⟨statements, hplain⟩ := hf.plain
  exact decode_encode_of_readable (hplain.readable hdays)

end Filter

/-! ## What items are ranked by -/

/-- A comparison other than one of beginnings has a form for every scalar. -/
theorem Value.IsScalar.takes {op : Comparison} {v : Value} (h : v.IsScalar) (hop : Decode.readsDates op = true) :
    op.Takes v := by
  cases op with
  | startsWith => cases hop
  | bound b =>
    cases v with
    | daysAgo days => trivial
    | _ => exact h
  | _ => cases v <;> exact h

/-- A scalar is ranked as a value that is written and read back as it is: a date as its instant in universal time. -/
theorem Value.IsScalar.rankable {v w : Value} (h : v.IsScalar) (hw : Winnow.rankable v = .ok w) : w.IsWritten := by
  have hinstant (i : Instant) : (Value.ofInstant i).IsWritten := by
    refine ⟨trivial, ?_⟩
    intro t ht
    cases ht
    rfl
  have hmoment : v.isTemporal = true → w.IsWritten := by
    intro htemporal
    rw [Winnow.rankable, if_pos htemporal] at hw
    obtain ⟨found, -, hw⟩ := bind_eq_ok hw
    cases found with
    | none =>
      cases hw
      exact .null
    | some i =>
      cases hw
      exact hinstant i
  cases v with
  | date d => exact hmoment rfl
  | datetime t => exact hmoment rfl
  | null | bool _ | int _ | text _ =>
    cases hw
    exact h.isWritten rfl
  | _ => exact absurd h id

/-- The extreme of some values is one of them. -/
theorem extremeFrom_mem {d : Direction} {best w : Value} {values : List Value}
    (h : extremeFrom d best values = .ok w) : w ∈ best :: values := by
  induction values generalizing best with
  | nil =>
    cases h
    exact .head _
  | cons v rest ih =>
    obtain ⟨order, -, h⟩ := bind_eq_ok h
    rcases List.mem_cons.1 (ih h) with hbest | hrest
    · split at hbest
      · exact hbest ▸ .tail _ (.head _)
      · exact hbest ▸ .head _
    · exact .tail _ (.tail _ hrest)

theorem extreme_mem {d : Direction} {w : Value} {values : List Value} (h : extreme d values = .ok w) :
    w = .null ∨ w ∈ values := by
  cases values with
  | nil =>
    cases h
    exact .inl rfl
  | cons v rest => exact .inr (extremeFrom_mem h)

namespace Filter

variable {f : Filter} {idField : String} {last : Value}

/-- An item whose sort values are scalars is ranked by a value that is written and read back as it is. -/
theorem sortValue_isWritten
    (hscalar : f.hasSort idField = true → ∀ source, f.sortSource last = .ok source → ∀ v ∈ source.elements, v.IsScalar)
    {w : Value} (h : f.sortValue idField last = .ok w) : w.IsWritten := by
  unfold sortValue at h
  split at h
  · next hsort =>
    obtain ⟨source, hsource, h⟩ := bind_eq_ok h
    obtain ⟨values, hvalues, h⟩ := bind_eq_ok h
    rcases extreme_mem h with rfl | hmem
    · exact .null
    · obtain ⟨v, hv, hrankable⟩ := mem_of_mapM_ok hvalues hmem
      exact (hscalar hsort source hsource v hv).rankable hrankable
  · cases h
    exact .null

end Filter

/-! ## Statements for what ranks after an item -/

/-- A condition of a page: its field is named, and it is written and read back as it is, within one level. -/
structure Paging.IsWritten (p : String × Condition) : Prop where
  named : p.1 ≠ ""
  shape : p.2.Has writtenShape
  depth : p.2.depth 0 ≤ 1

namespace Paging

/-- Conditions on the value and the identifier of an item are in the queries for what ranks after it. -/
theorem forall_mem_alternatives {P : String × Condition → Prop} {value : Value} {later same missing : Query}
    {tieBreak : String × Condition} (hlater : ∀ p ∈ later, P p) (hsame : ∀ p ∈ same, P p)
    (hmissing : ∀ p ∈ missing, P p) (htieBreak : P tieBreak) :
    ∀ q ∈ alternatives value later same missing tieBreak, ∀ p ∈ q, P p := by
  have happend : ∀ q : Query, (∀ p ∈ q, P p) → ∀ p ∈ q ++ [tieBreak], P p := by
    intro q hq p hp
    rcases List.mem_append.1 hp with hp | hp
    · exact hq p hp
    · exact List.mem_singleton.1 hp ▸ htieBreak
  unfold alternatives
  split
  · exact List.forall_mem_singleton.2 (happend missing hmissing)
  · exact List.forall_mem_cons.2 ⟨hlater, List.forall_mem_cons.2
      ⟨happend same hsame, List.forall_mem_singleton.2 hmissing⟩⟩

/-- A comparison with a written value is a condition of a page. -/
theorem isWritten_compare {field : String} {op : Comparison} {v : Value} (hfield : field ≠ "") (hv : v.IsWritten)
    (hop : Decode.readsDates op = true) : IsWritten (field, .compare op v) :=
  ⟨hfield, .compare ⟨hv.scalar.takes hop, hv.legible⟩, Nat.zero_le 1⟩

/-- A question about the element of a sort is a condition of a page. -/
theorem isWritten_nested {field subProp : String} {subId v : Value} (op : Membership) {comparison : Comparison}
    (hfield : field ≠ "") (hsubProp : subProp ≠ "") (hsubId : subId.IsWritten) (hv : v.IsWritten)
    (hop : Decode.readsDates comparison = true) :
    IsWritten (field, .nested op (.query (element subId subProp (.compare comparison v)))) := by
  have hpairs : ∀ p ∈ element subId subProp (.compare comparison v), IsWritten p ∧ p.2.depth 0 = 0 := by
    intro p hp
    rcases List.mem_append.1 hp with hp | hp
    · obtain rfl := List.mem_singleton.1 hp
      exact ⟨isWritten_compare (by decide) hsubId rfl, rfl⟩
    · obtain rfl := List.mem_singleton.1 hp
      exact ⟨isWritten_compare hsubProp hv hop, rfl⟩
  refine ⟨hfield, Condition.has_nested_iff.2 fun p hp => ⟨(hpairs p hp).1.named, (hpairs p hp).1.shape⟩, ?_⟩
  refine Condition.depth_nested_le.2 ⟨Nat.zero_le 1, ?_⟩
  intro p hp
  rw [(hpairs p hp).2]
  exact Nat.zero_lt_one

end Paging

namespace Filter

variable {f : Filter} {idField : String} {last lastId : Value}

/-- A name in a sort that is given is not empty. -/
theorem ne_empty_of_textOr {v : Value} {s : String} (hname : v.IsSortName) (hgiven : v.isGiven = true)
    (h : v.textOr = .ok s) : s ≠ "" := by
  obtain ⟨t, rfl⟩ := hname.exists_text hgiven
  cases h
  simpa [Value.isGiven] using hgiven

/-- The statement for what ranks after an item is written and read back as it is. -/
theorem afterItem_isWritten (hf : f.IsWellFormed) (hidField : idField ≠ "") (hlastId : lastId.IsWritten)
    (hscalar : f.hasSort idField = true → ∀ source, f.sortSource last = .ok source → ∀ v ∈ source.elements, v.IsScalar)
    {queries : List Query} (h : f.afterItem idField last lastId = .ok queries) :
    ∀ q ∈ queries, ∀ p ∈ q, Paging.IsWritten p := by
  obtain ⟨statements, hplain⟩ := hf.plain
  have htieBreak : Paging.IsWritten (idField, .within f.direction.afterBound lastId) :=
    Paging.isWritten_compare hidField hlastId rfl
  -- The queries ask for an element of a collection, for a field, or for the identifier alone.
  unfold afterItem at h
  split at h
  · next hsort =>
    obtain ⟨value, hvalue, h⟩ := bind_eq_ok h
    obtain ⟨field, hfield, h⟩ := bind_eq_ok h
    have hwritten := sortValue_isWritten hscalar hvalue
    have hgiven : f.sortField.isGiven = true := (Bool.and_eq_true _ _ ▸ hsort).1
    have hnamed := ne_empty_of_textOr hplain.sortField hgiven hfield
    split at h
    · next hnested =>
      obtain ⟨subProp, hsubProp, h⟩ := bind_eq_ok h
      obtain ⟨hsubIdGiven, hsubPropGiven⟩ := Bool.and_eq_true_iff.1 hnested
      have hprop := ne_empty_of_textOr hplain.subProp hsubPropGiven hsubProp
      have hsubId : f.subId.IsWritten := by
        obtain ⟨s, hs⟩ := hplain.subId.exists_text hsubIdGiven
        exact hf.subId.isWritten (hs ▸ rfl)
      cases h
      refine Paging.forall_mem_alternatives ?_ ?_ ?_ htieBreak
      · exact List.forall_mem_singleton.2 (Paging.isWritten_nested .find hnamed hprop hsubId hwritten rfl)
      · exact List.forall_mem_singleton.2 (Paging.isWritten_nested .find hnamed hprop hsubId hwritten rfl)
      · exact List.forall_mem_singleton.2 (Paging.isWritten_nested .nfind hnamed hprop hsubId .null rfl)
    · cases h
      refine Paging.forall_mem_alternatives ?_ ?_ ?_ htieBreak
      · exact List.forall_mem_singleton.2 (Paging.isWritten_compare hnamed hwritten rfl)
      · exact List.forall_mem_singleton.2 (Paging.isWritten_compare hnamed hwritten rfl)
      · exact List.forall_mem_singleton.2 (Paging.isWritten_compare hnamed .null rfl)
  · cases h
    exact List.forall_mem_singleton.2 (List.forall_mem_singleton.2 htieBreak)

/-- A filter continued after an item is the filter itself, or it has one more statement for what ranks after the
item. -/
theorem of_continueAfter {next : Filter} (h : (f.continueAfter idField last).result = .ok next) :
    next = f ∨ ∃ queries, last.resolve idField ≠ .null ∧
      f.afterItem idField last (last.resolve idField) = .ok queries ∧
      next = { f with statements := f.statements ++ statementsOf [queries] } := by
  unfold continueAfter at h
  split at h
  · cases h
    exact .inl rfl
  · split at h
    · cases h
    · next hne =>
      obtain ⟨queries, hqueries, h⟩ := Logged.result_bind_eq_ok h
      obtain ⟨-, -, h⟩ := Logged.result_bind_eq_ok h
      cases h
      exact .inr ⟨queries, hne, hqueries, rfl⟩

/-- A well-formed filter with a statement for what ranks after an item is well formed, and its dates are legible when
they were before. -/
theorem IsWellFormed.append (hf : f.IsWellFormed) {queries : List Query}
    (hqueries : ∀ q ∈ queries, ∀ p ∈ q, Paging.IsWritten p) :
    { f with statements := f.statements ++ statementsOf [queries] }.IsWellFormed ∧
      (f.DatesLegible → { f with statements := f.statements ++ statementsOf [queries] }.DatesLegible) := by
  obtain ⟨⟨statements, hstatements, hshape, hdepth, hsortField, hsubId, hsubProp, hlimit⟩, helement⟩ := hf
  have happended : f.statements ++ statementsOf [queries] = statementsOf (statements ++ [queries]) := by
    rw [hstatements, statementsOf, statementsOf, statementsOf, List.map_append]
  refine ⟨⟨⟨statements ++ [queries], happended, ?_, ?_, hsortField, hsubId, hsubProp, hlimit⟩, helement⟩, ?_⟩
  · intro statement hstatement q hq p hp
    rcases List.mem_append.1 hstatement with hstatement | hstatement
    · exact hshape statement hstatement q hq p hp
    · obtain rfl := List.mem_singleton.1 hstatement
      exact ⟨(hqueries q hq p hp).named, (hqueries q hq p hp).shape.plain⟩
  · intro statement hstatement q hq p hp
    rcases List.mem_append.1 hstatement with hstatement | hstatement
    · exact hdepth statement hstatement q hq p hp
    · obtain rfl := List.mem_singleton.1 hstatement
      have hone := (hqueries q hq p hp).depth
      omega
  · intro hdates
    refine (datesLegible_iff happended).2 ?_
    intro statement hstatement q hq p hp
    rcases List.mem_append.1 hstatement with hstatement | hstatement
    · exact (datesLegible_iff hstatements).1 hdates statement hstatement q hq p hp
    · obtain rfl := List.mem_singleton.1 hstatement
      exact ⟨trivial, (hqueries q hq p hp).shape.legible⟩

end Filter

/-! ## Steps -/

namespace Session

/-- A replacement of a part of a filter, other than the statements, by a value that data has a form for. Any value may
stand for a direction: one that names none is refused, as is an unknown part. -/
structure TameChange (name : String) (v : Value) : Prop where
  statements : name ≠ "statements"
  limit : name = "limit" → ∃ n, v = .int n ∧ 1 ≤ n
  sortField : name = "sort_field_id" → v.IsSortName
  subId : name = "sort_field_sub_id" → v.IsSortName ∧ v.IsScalar
  subProp : name = "sort_field_sub_prop" → v.IsSortName

/-- A step that keeps to what data has a form for: tame replacements, and items whose identifier is written and read
back as it is and whose sort values are scalars. An item without an identifier is refused. -/
inductive Tame (f : Filter) : Step → Prop where
  | replace {changes : List (String × Value)} :
    (∀ change ∈ changes, TameChange change.1 change.2) → Tame f (.replace changes)
  | continueAfter {idField : String} {last : Value} :
      idField ≠ "" → (last.resolve idField).IsWritten →
      (f.hasSort idField = true → ∀ source, f.sortSource last = .ok source → ∀ v ∈ source.elements, v.IsScalar) →
      Tame f (.continueAfter idField last)
  | roundTrip : Tame f .roundTrip
  | select (idField : String) : Tame f (.select idField)
  | search (translator : Translator) : Tame f (.search translator)
  | validate (options : DecodeOptions) : Tame f (.validate options)

variable {α : Type} {s : Setting α} {start f : Filter}

/-- A filter that a session comes to from a first one by steps that are tame. -/
inductive Reachable (s : Setting α) (start : Filter) : Filter → Prop where
  | start : Reachable s start start
  | step {f : Filter} {action : Step} : Reachable s start f → Tame f action → Reachable s start (after s f action)

/-- A filter after a tame replacement of parts is well formed, with the statements that it had. -/
theorem wellFormed_replace (hf : f.IsWellFormed) {changes : List (String × Value)}
    (hchanges : ∀ change ∈ changes, TameChange change.1 change.2) {next : Filter} (h : f.replace changes = .ok next) :
    next.IsWellFormed ∧ next.statements = f.statements := by
  have hpart : ∀ name, ∀ v ∈ changes.reverse.lookup name, TameChange name v := by
    intro name v hlookup
    exact hchanges _ (List.mem_reverse.1 (Value.mem_of_lookup hlookup))
  have hstatements : changes.reverse.lookup "statements" = none := by
    refine Option.eq_none_iff_forall_not_mem.2 ?_
    intro v hv
    exact (hpart "statements" v hv).statements rfl
  obtain ⟨⟨statements, hplain⟩, helement⟩ := hf
  have hkept : ∀ {P : Value → Prop} {name : String} {v : Value}, P v → (∀ w, TameChange name w → P w) →
      P ((changes.reverse.lookup name).getD v) := by
    intro P name v hv htame
    cases hlookup : changes.reverse.lookup name with
    | none => exact hv
    | some w => exact htame w (hpart name w hlookup)
  unfold Filter.replace at h
  dsimp only at h
  split at h
  · cases h
  · obtain ⟨-, -, h⟩ := bind_eq_ok h
    obtain ⟨kept, hkeptStatements, h⟩ := bind_eq_ok h
    obtain ⟨direction, -, h⟩ := bind_eq_ok h
    rw [hstatements] at hkeptStatements
    cases hkeptStatements
    cases h
    refine ⟨⟨⟨statements, hplain.statements_eq, hplain.shape, hplain.depth, ?_, ?_, ?_, ?_⟩, ?_⟩, rfl⟩
    · exact hkept hplain.sortField fun w hw => hw.sortField rfl
    · exact hkept hplain.subId fun w hw => (hw.subId rfl).1
    · exact hkept hplain.subProp fun w hw => hw.subProp rfl
    · exact hkept (P := fun v => ∃ n, v = .int n ∧ 1 ≤ n) hplain.limit fun w hw => hw.limit rfl
    · exact hkept helement fun w hw => (hw.subId rfl).2

/-- A filter with the same statements has legible dates when the other has. -/
theorem datesLegible_congr {next : Filter} (h : next.statements = f.statements) (hdates : f.DatesLegible) :
    next.DatesLegible := by
  unfold Filter.DatesLegible Filter.conditions at hdates ⊢
  rw [h]
  exact hdates

/-- A tame step keeps a filter well formed, and keeps its dates legible. -/
theorem wellFormed_after (hdays : s.readDays.ReadsWritten) (hf : f.IsWellFormed) {action : Step}
    (haction : Tame f action) :
    (after s f action).IsWellFormed ∧ (f.DatesLegible → (after s f action).DatesLegible) := by
  unfold after
  -- A step that fails leaves the filter that there was.
  split
  · next reply next hresult =>
    cases haction with
    | replace hchanges =>
      obtain ⟨changed, hchanged, hresult⟩ := Logged.result_bind_eq_ok hresult
      cases hresult
      obtain ⟨hwellFormed, hstatements⟩ := wellFormed_replace hf hchanges hchanged
      exact ⟨hwellFormed, datesLegible_congr hstatements⟩
    | continueAfter hidField hlastId hscalar =>
      obtain ⟨continued, hcontinued, hresult⟩ := Logged.result_bind_eq_ok hresult
      cases hresult
      rcases Filter.of_continueAfter hcontinued with rfl | ⟨queries, -, hqueries, rfl⟩
      · exact ⟨hf, id⟩
      · exact hf.append (Filter.afterItem_isWritten hf hidField hlastId hscalar hqueries)
    | roundTrip =>
      obtain ⟨data, hdata, hdecode, -⟩ := hf.encode hdays
      obtain ⟨written, hwritten, hresult⟩ := Logged.result_bind_eq_ok hresult
      obtain ⟨read, hread, hresult⟩ := Logged.result_bind_eq_ok hresult
      obtain ⟨equal, -, hresult⟩ := Logged.result_bind_eq_ok hresult
      obtain rfl := Except.ok.inj (hdata.symm.trans hwritten)
      rw [hdecode] at hread
      cases hread
      cases hresult
      exact ⟨hf.reread, fun hdates => (hf.reread_eq hdates).symm ▸ hdates⟩
    | select idField =>
      obtain ⟨items, -, hresult⟩ := Logged.result_bind_eq_ok hresult
      cases hresult
      exact ⟨hf, id⟩
    | search translator =>
      obtain ⟨body, -, hresult⟩ := Logged.result_bind_eq_ok hresult
      cases hresult
      exact ⟨hf, id⟩
    | validate options =>
      obtain ⟨written, -, hresult⟩ := Logged.result_bind_eq_ok hresult
      obtain ⟨problems, -, hresult⟩ := Logged.result_bind_eq_ok hresult
      cases hresult
      exact ⟨hf, id⟩
  · exact ⟨hf, id⟩

/-- A session of tame steps can be written at any time, whatever else is read as a relative date: every filter that it
comes to is well formed, its data has no problem, and if the dates of the first filter are legible the data is read as
the filter, which is found equal. -/
theorem serialisable_of_reachable (hdays : s.readDays.ReadsWritten) (hstart : start.IsWellFormed)
    (h : Reachable s start f) :
    f.IsWellFormed ∧ ∃ data, f.encode = .ok data ∧ Filter.problems { readDays := s.readDays } data = pure [] ∧
      (start.DatesLegible → Filter.decode { readDays := s.readDays } data = pure f ∧ f.same? f = some true) := by
  -- What comes back in the middle of a session need not be what was written, so the dates are followed on their own.
  have hinvariant : f.IsWellFormed ∧ (start.DatesLegible → f.DatesLegible) := by
    induction h with
    | start => exact ⟨hstart, id⟩
    | step _ haction ih =>
      obtain ⟨hwellFormed, hdates⟩ := wellFormed_after hdays ih.1 haction
      exact ⟨hwellFormed, fun hlegible => hdates (ih.2 hlegible)⟩
  obtain ⟨hf, hdates⟩ := hinvariant
  obtain ⟨data, hdata, hdecode, hproblems⟩ := hf.encode hdays
  refine ⟨hf, data, hdata, hproblems, ?_⟩
  intro hlegible
  rw [hf.reread_eq (hdates hlegible)] at hdecode
  exact ⟨hdecode, hf.same?_self⟩

/-- A setting without items. -/
def idle : Setting Value where
  items := []
  view := id
  registry := .standard .atStart

/-- A filter sorted by the day of a visit to a page, with a date and time an hour from universal time. -/
def byVisit : Filter :=
  { Filter.ofCondition "visits" .seenLately with
    sortField := .text "visits"
    subId := .text "home"
    subProp := .text "day" }

/-- An item with two days of visits to the page. -/
def visitor : Value :=
  .object [("id", .text "k1"), ("visits", .list [.object [("id", .text "home"),
    ("day", .list [.date { year := 2021, month := 8, day := 2 }, .date { year := 2021, month := 8, day := 1 }])]])]

/-- The filter continued after the item, read back, and with another limit. -/
def byVisitNext : Filter :=
  after idle (after idle (after idle byVisit (.continueAfter "id" visitor)) .roundTrip) (.replace [("limit", .int 5)])

theorem serialisable_of_reachable_byVisit :
    byVisit.IsWellFormed ∧ byVisit.DatesLegible ∧ Reachable idle byVisit byVisitNext ∧
      byVisitNext.statements.length = 2 ∧ byVisitNext.limit = .int 5 ∧ byVisitNext.IsWellFormed ∧
      ∃ data, byVisitNext.encode = .ok data ∧ Filter.problems {} data = pure [] ∧
        (byVisit.DatesLegible → Filter.decode {} data = pure byVisitNext ∧
          byVisitNext.same? byVisitNext = some true) := by
  have hshape : Condition.seenLately.Has writtenShape := by
    refine Condition.has_nested_iff.2 (List.forall_mem_singleton.2 ⟨(by decide : "seen" ≠ ""), ?_⟩)
    refine Condition.has_combine_iff.2 (List.forall_mem_cons.2 ⟨⟨trivial, .compare ⟨trivial, ?_⟩⟩,
      List.forall_mem_singleton.2 ⟨trivial, .compare ⟨trivial, ?_⟩⟩⟩)
    · rintro t ⟨⟩
    · rintro t ⟨⟩
      rfl
  have hplain : byVisit.IsPlain 32 [[[("visits", .seenLately)]]] := by
    have h : (Filter.ofCondition "visits" .seenLately).IsPlain 32 [[[("visits", .seenLately)]]] :=
      Filter.isPlain_ofCondition (by decide) hshape.plain (by decide)
    exact { h with sortField := trivial, subId := trivial, subProp := trivial }
  have hstart : byVisit.IsWellFormed := ⟨⟨_, hplain⟩, rfl⟩
  have hdates : byVisit.DatesLegible := List.forall_mem_singleton.2 hshape.legible
  have hsource : byVisit.sortSource visitor =
      .ok (.list [.date { year := 2021, month := 8, day := 2 }, .date { year := 2021, month := 8, day := 1 }]) := rfl
  have htame : Tame byVisit (.continueAfter "id" visitor) := by
    refine .continueAfter (by decide) (Value.IsScalar.isWritten (v := .text "k1") rfl rfl) ?_
    intro _ source h
    obtain rfl := Except.ok.inj (hsource.symm.trans h)
    exact List.forall_mem_cons.2 ⟨trivial, List.forall_mem_singleton.2 trivial⟩
  have hlimit : TameChange "limit" (.int 5) :=
    ⟨by decide, fun _ => ⟨5, rfl, by decide⟩, nofun, nofun, nofun⟩
  have hreachable : Reachable idle byVisit byVisitNext :=
    .step (.step (.step .start htame) .roundTrip) (.replace (List.forall_mem_singleton.2 hlimit))
  have hmain := serialisable_of_reachable (s := idle) RelativeDate.readsWritten_readLoosely hstart hreachable
  exact ⟨hstart, hdates, hreachable, by decide +kernel, rfl, hmain⟩

/-- A filter sorted by a property of an element that is named by the text of a date. -/
def byDatedElement : Filter where
  sortField := .text "lists"
  subId := .text "2024-06-01"
  subProp := .text "n"

/-- An item with such an element. -/
def listed : Value :=
  .object [("id", .int 1), ("lists", .list [.object [("id", .text "2024-06-01"), ("n", .int 5)]])]

/-- The filter continued after the item. -/
def datedPage : Filter :=
  after idle byDatedElement (.continueAfter "id" listed)

/-- A filter that data has a form for and an item of whole numbers lead to a filter that is not read back as it was: the
name of the element comes back as a date. -/
theorem continueAfter_datedElement :
    byDatedElement.IsPlain 32 [] ∧ Tame byDatedElement (.continueAfter "id" listed) ∧
      ∃ data back, datedPage.encode = .ok data ∧ (Filter.decode {} data).result = .ok back ∧
        back.same? datedPage = some false := by
  have hsource : byDatedElement.sortSource listed = .ok (.int 5) := rfl
  have hplain : byDatedElement.IsPlain 32 [] :=
    ⟨rfl, nofun, nofun, trivial, trivial, trivial, 10, rfl, by decide⟩
  have htame : Tame byDatedElement (.continueAfter "id" listed) := by
    refine .continueAfter (by decide) (Value.IsScalar.isWritten (v := .int 1) trivial rfl) ?_
    intro _ source h v hv
    obtain rfl := Except.ok.inj (hsource.symm.trans h)
    obtain rfl := List.mem_singleton.1 hv
    trivial
  exact ⟨hplain, htame, _, _, rfl, Filter.result_decode rfl, rfl⟩

end Session

end Winnow
