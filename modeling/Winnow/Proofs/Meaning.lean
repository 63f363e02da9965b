import Winnow.Proofs.Matching
import Winnow.Proofs.Reading

/-!
# What clauses mean

The meaning of clauses on an item, by the rules of a search index (`Clause.reads`), and the proof that translation keeps
the meaning of statements (`Translator.reads_translateStatements`). Inside a collection, fields are called by their
whole path and meant as fields of one element; the scope is the path of that collection.
-/

namespace Winnow

/-! ## Relative dates as text -/

namespace RelativeDate

/-- The number of days of a relative date written for a search engine. -/
def readMath? (text : String) : Option Nat :=
  (Text.dropPrefix? "now-".toList text.toList).bind fun rest =>
    let digits := rest.takeWhile Char.isDigit
    if digits ≠ [] ∧ rest.dropWhile Char.isDigit = "d/d".toList then some (Nat.ofDigitChars 10 digits 0) else none

theorem dropPrefix?_append (start rest : List Char) : Text.dropPrefix? start (start ++ rest) = some rest := by
  induction start with
  | nil => rfl
  | cons c start ih => rw [List.cons_append, Text.dropPrefix?, if_pos rfl, ih]

/-- A relative date is read back from its text, when it has one. -/
theorem readMath?_dateMath {days : Nat} {text : String} (h : dateMath days = some text) :
    readMath? text = some days := by
  obtain ⟨shown, hshown, rfl⟩ := Option.map_eq_some_iff.1 h
  have hdigits : ∀ c ∈ Nat.toDigits 10 days, c.isDigit = true := fun c hc =>
    Nat.isDigit_of_mem_toDigits (by decide) (by decide) hc
  have hchars : ("now-" ++ shown ++ "d/d").toList = "now-".toList ++ (Nat.toDigits 10 days ++ "d/d".toList) := by
    rw [← writeInt?_eq_some hshown]
    simp only [String.toList_append, toString, Int.repr, Nat.toList_repr, List.append_assoc]
  have htake : (Nat.toDigits 10 days ++ "d/d".toList).takeWhile Char.isDigit = Nat.toDigits 10 days := by
    rw [List.takeWhile_append_of_pos hdigits]
    simp
  have hdrop : (Nat.toDigits 10 days ++ "d/d".toList).dropWhile Char.isDigit = "d/d".toList := by
    rw [List.dropWhile_append_of_pos hdigits]
    rfl
  rw [readMath?, hchars, dropPrefix?_append, Option.bind_some]
  simp only [htake, hdrop, Nat.ofDigitChars_ten_toDigits]
  rw [if_pos ⟨Nat.toDigits_ne_nil, trivial⟩]

/-- A relative date with a first instant is not beyond the longest distance in time. -/
theorem lt_of_floor {clock : Clock} {days : Nat} {start : Instant} (h : floor clock days = .ok start) :
    days < Nat.pow 10 9 := by
  obtain ⟨current, -, h⟩ := bind_eq_ok h
  by_contra hfar
  have hbeyond : 999999999 < days := Nat.lt_of_lt_of_le (by decide) (Nat.not_lt.1 hfar)
  by_cases hlarge : Nat.pow 2 31 ≤ days
  · rw [if_pos hlarge] at h
    cases h
  · rw [if_neg hlarge] at h
    dsimp only [pure_eq_ok, ok_bind] at h
    rw [if_pos hbeyond] at h
    cases h

/-- A relative date that is resolved has a first instant. -/
theorem exists_floor_of_resolve {clock : Clock} {b : Bound} {days : Nat} {limit : Value}
    (h : resolve clock b (.daysAgo days) = .ok limit) : ∃ start, floor clock days = .ok start := by
  cases hfloor : floor clock days with
  | ok start => exact ⟨start, rfl⟩
  | error fault =>
    cases b <;> simp only [resolve, ceil, hfloor] at h <;> cases h

end RelativeDate

/-- The operand that the value of a range stands for: a text of a relative date stands for that date. -/
def rangeMeaning : Value → Value
  | .text s => match RelativeDate.readMath? s with
    | some days => .daysAgo days
    | none => .text s
  | v => v

/-- A field inside a collection as a field of its elements; outside of any collection, the field itself. -/
def Path.relative (scope path : String) : String :=
  if scope.isEmpty then path
  else ((Text.dropPrefix? (scope ++ ".").toList path.toList).map String.ofList).getD path

/-- Whether a comparison holds of a value; one that cannot be decided does not. -/
def Comparison.reads (op : Comparison) (clock : Clock) (value operand : Value) : Bool :=
  match op.holds clock value.elements operand with
  | .ok b => b
  | .error _ => false

namespace Clause

mutual

/-- Whether a clause holds of an item, or of an element of the collection that is the scope. -/
def reads (clock : Clock) (scope : String) (item : Value) : Clause → Bool
  | term field value => Comparison.eq.reads clock (item.resolve (Path.relative scope field)) value
  | present field => Comparison.neq.reads clock (item.resolve (Path.relative scope field)) .null
  | range field bound value =>
    (Comparison.bound bound).reads clock (item.resolve (Path.relative scope field)) (rangeMeaning value)
  | startsWith field value => Comparison.startsWith.reads clock (item.resolve (Path.relative scope field)) value
  | nested path query =>
    (item.resolve (Path.relative scope path)).elements.any fun element => readsFragment clock path element query
  | best queries => readsSome clock scope item queries
  | bool fragment => readsFragment clock scope item fragment
  | anyOf should => readsSome clock scope item should
termination_by structural c => c

/-- Whether a fragment holds of an item. -/
def readsFragment (clock : Clock) (scope : String) (item : Value) : Fragment Clause → Bool
  | ⟨filter, mustNot⟩ => readsEvery clock scope item filter && readsNone clock scope item mustNot
termination_by structural f => f

/-- Whether all of the clauses that must match hold of an item. -/
def readsEvery (clock : Clock) (scope : String) (item : Value) : Option (List Clause) → Bool
  | none => true
  | some clauses => readsAll clock scope item clauses
termination_by structural clauses => clauses

/-- Whether none of the clauses that must not match holds of an item. -/
def readsNone (clock : Clock) (scope : String) (item : Value) : Option (List Clause) → Bool
  | none => true
  | some clauses => !readsSome clock scope item clauses
termination_by structural clauses => clauses

/-- Whether all of some clauses hold of an item. -/
def readsAll (clock : Clock) (scope : String) (item : Value) : List Clause → Bool
  | [] => true
  | c :: rest => reads clock scope item c && readsAll clock scope item rest
termination_by structural clauses => clauses

/-- Whether some of some clauses hold of an item. -/
def readsSome (clock : Clock) (scope : String) (item : Value) : List Clause → Bool
  | [] => false
  | c :: rest => reads clock scope item c || readsSome clock scope item rest
termination_by structural clauses => clauses

end

variable (clock : Clock) (scope : String) (item : Value)

theorem readsAll_eq (clauses : List Clause) :
    readsAll clock scope item clauses = clauses.all (reads clock scope item) := by
  induction clauses with
  | nil => rfl
  | cons c rest ih => rw [readsAll, ih, List.all_cons]

theorem readsSome_eq (clauses : List Clause) :
    readsSome clock scope item clauses = clauses.any (reads clock scope item) := by
  induction clauses with
  | nil => rfl
  | cons c rest ih => rw [readsSome, ih, List.any_cons]

theorem readsFragment_eq (f : Fragment Clause) :
    readsFragment clock scope item f = f.holds (reads clock scope item) := by
  obtain ⟨filter, mustNot⟩ := f
  rw [readsFragment, Fragment.holds]
  congr 1
  · cases filter with
    | none => rfl
    | some clauses => exact readsAll_eq clock scope item clauses
  · cases mustNot with
    | none => rfl
    | some clauses => exact congrArg (!·) (readsSome_eq clock scope item clauses)

/-- The meaning of clauses is a reading. -/
theorem isReading_reads : IsReading (reads clock scope item) where
  bool f := by rw [reads, readsFragment_eq]
  best queries := by rw [reads, readsSome_eq]
  anyOf should := by rw [reads, readsSome_eq]

end Clause

/-! ## Conditions with a meaning in a search -/

/-- Whether a value is an operand of equality that a search has a form for. -/
def Value.IsTerm : Value → Prop
  | .null | .bool _ | .int _ | .text _ => True
  | _ => False

/-- Whether a value is a bound that a search has a form for; a text must not stand for a relative date. -/
def Value.IsBound : Value → Prop
  | .int _ | .daysAgo _ => True
  | .text s => RelativeDate.readMath? s = none
  | _ => False

/-- Whether a comparison with an operand has a meaning in a search. -/
def Comparison.IsSearchable (op : Comparison) (operand : Value) : Prop :=
  match op with
  | .eq | .neq => operand.IsTerm
  | .bound _ => operand.IsBound
  | .startsWith => ∃ s, operand = .text s

/-- The shape of conditions that keep their meaning: no member of a disjunction is a conjunction. -/
def searchShape : Shape where
  operand := Comparison.IsSearchable
  field := fun _ => True
  member := fun op c => op = .any → c.op ≠ .combinator .all

/-- A comparison with an operand can be decided wherever a condition looks at it, in every element of a collection. -/
inductive Condition.Decided (clock : Clock) : Condition → Value → Prop where
  | compare {op : Comparison} {operand value : Value} {b : Bool} :
      op.holds clock value.elements operand = .ok b → Decided clock (.compare op operand) value
  | combine {op : Combinator} {members : List Condition} {value : Value} :
      (∀ c ∈ members, Decided clock c value) → Decided clock (.combine op (members.map .condition)) value
  | nested {op : Membership} {pairs : Query} {value : Value} :
      (∀ element ∈ value.elements, ∀ p ∈ pairs, Decided clock p.2 (element.resolve p.1)) →
        Decided clock (.nested op (.query pairs)) value

/-- A condition whose comparisons can be decided is decided. -/
theorem Condition.Decided.evaluate {clock : Clock} {c : Condition} {value : Value} (h : c.Decided clock value) :
    ∃ b, (Registry.standard clock).evaluate c value = .ok b := by
  induction h with
  | compare hb => exact ⟨_, (Registry.evaluate_compare _ _ _).trans hb⟩
  | @combine op members value _ ih =>
    cases op with
    | all =>
      rw [Registry.evaluate_all]
      exact allPass_answered ih
    | any =>
      by_cases hne : members = []
      · rw [hne]
        exact ⟨true, Registry.evaluate_any_nil value⟩
      · rw [Registry.evaluate_any hne]
        exact anyPasses_answered ih
  | @nested op pairs value _ ih =>
    have hquery : ∀ element ∈ value.elements, ∃ b, (Registry.standard clock).matchesQuery pairs element = .ok b := by
      intro element helement
      rw [Registry.matchesQuery_eq]
      exact allPass_answered (ih element helement)
    obtain ⟨b, hb⟩ := anyPasses_answered hquery
    cases op with
    | find => exact ⟨b, (Registry.evaluate_find _ _).trans hb⟩
    | nfind =>
      refine ⟨!b, (Registry.evaluate_nfind _ _).trans ?_⟩
      rw [hb]
      rfl

/-! ## Translation keeps the meaning -/

namespace Comparison

variable {clock : Clock}

/-- An answer is what is read. -/
theorem reads_eq {op : Comparison} {value operand : Value} {b : Bool}
    (h : op.holds clock value.elements operand = .ok b) : op.reads clock value operand = b := by
  rw [reads, h]

/-- A field differs from a value when it does not equal it. -/
theorem holds_neq (values : List Value) (operand : Value) :
    neq.holds clock values operand = (eq.holds clock values operand).map (!·) := by
  cases operand <;> rfl

theorem reads_neq {value operand : Value} {b : Bool} (h : neq.holds clock value.elements operand = .ok b) :
    eq.reads clock value operand = !b := by
  rw [holds_neq] at h
  cases heq : eq.holds clock value.elements operand with
  | error fault =>
    rw [heq] at h
    cases h
  | ok answer =>
    rw [heq] at h
    rw [reads_eq heq, ← Except.ok.inj h, Bool.not_not]

/-- A bound keeps its meaning in a search. -/
theorem rangeMeaning_rangeOperand {operand limit : Value} (h : operand.IsBound)
    (hlimit : rangeOperand operand = some limit) : rangeMeaning limit = operand := by
  cases operand with
  | int n =>
    cases hlimit
    rfl
  | daysAgo days =>
    obtain ⟨text, htext, rfl⟩ := Option.map_eq_some_iff.1 hlimit
    rw [rangeMeaning, RelativeDate.readMath?_dateMath htext]
  | text s =>
    have hs : RelativeDate.readMath? s = none := h
    cases hlimit
    show rangeMeaning (.text s) = .text s
    rw [rangeMeaning, hs]
  | _ => exact absurd h id

/-- A comparison that is decided can be written: a relative date without a text is far out of the calendar. -/
theorem writes_of_holds {op : Comparison} {values : List Value} {operand : Value} {b : Bool}
    (h : op.holds clock values operand = .ok b) : op.Writes operand := by
  cases op with
  | bound side =>
    cases operand with
    | daysAgo days =>
      obtain ⟨limit, hlimit, -⟩ := bind_eq_ok h
      obtain ⟨start, hstart⟩ := RelativeDate.exists_floor_of_resolve hlimit
      exact fitsLimit_of_lt (RelativeDate.lt_of_floor hstart)
    | _ => trivial
  | _ => trivial

/-- The fragment of a comparison means what the comparison does. -/
theorem holds_fragment {op : Comparison} {operand : Value} (hop : op.IsSearchable operand) {scope path : String}
    {item : Value} {b : Bool} (h : op.holds clock (item.resolve (Path.relative scope path)).elements operand = .ok b) :
    (op.fragment path operand).holds (Clause.reads clock scope item) = b := by
  cases op with
  | eq =>
    cases operand with
    | null =>
      have hpresent := congrArg (Except.map (!·)) h
      rw [← holds_neq] at hpresent
      show (Fragment.exclude (.present path)).holds _ = b
      rw [Fragment.holds_exclude, Clause.reads, reads_eq hpresent, Bool.not_not]
    | bool _ | int _ | text _ =>
      show (Fragment.must (.term path _)).holds _ = b
      rw [Fragment.holds_must, Clause.reads]
      exact reads_eq h
    | _ => exact absurd hop id
  | neq =>
    cases operand with
    | null =>
      show (Fragment.must (.present path)).holds _ = b
      rw [Fragment.holds_must, Clause.reads, reads_eq h]
    | bool _ | int _ | text _ =>
      show (Fragment.exclude (.term path _)).holds _ = b
      rw [Fragment.holds_exclude, Clause.reads]
      exact (congrArg (!·) (reads_neq h)).trans (Bool.not_not b)
    | _ => exact absurd hop id
  | bound side =>
    obtain ⟨limit, hlimit, hfragment⟩ := exists_rangeOperand (writes_of_holds h)
    rw [hfragment, Fragment.holds_must, Clause.reads, rangeMeaning_rangeOperand hop hlimit, reads_eq h]
  | startsWith =>
    obtain ⟨s, rfl⟩ := hop
    show (Fragment.must (.startsWith path (.text s))).holds _ = b
    rw [Fragment.holds_must, Clause.reads, reads_eq h]

end Comparison

namespace Path

/-- A field of the elements of a collection is called by its path with that of the collection in front. -/
theorem relative_inside (scope field : String) : relative scope (inside scope field) = field := by
  by_cases hempty : scope.isEmpty = true
  · rw [relative, inside, if_pos hempty, if_pos hempty]
  · have hchars : (inside scope field).toList = (scope ++ ".").toList ++ field.toList := by
      simp [inside, join, hempty]
    rw [relative, if_neg hempty, hchars, RelativeDate.dropPrefix?_append]
    simp

end Path

section Meaning

variable {clock : Clock} {scope : String} {item : Value}

/-- The fragment of a query means what the query does when those of its conditions do. -/
theorem Query.holds_fragment_of {q : Query}
    (hparts : ∀ p ∈ q, ∀ b, (Registry.standard clock).evaluate p.2 (item.resolve p.1) = .ok b →
      (p.2.fragment .identity (Path.inside scope p.1)).holds (Clause.reads clock scope item) = b)
    {b : Bool} (h : (Registry.standard clock).matchesQuery q item = .ok b) :
    (Query.fragment .identity scope q).holds (Clause.reads clock scope item) = b := by
  rw [Registry.matchesQuery_eq] at h
  rw [Query.fragment, Fragment.holds_mergeAll, List.all_map]
  refine all_of_allPass ?_ h
  intro p hp b hb
  rw [Function.comp_apply, FieldMap.nameOf_identity]
  exact hparts p hp b hb

/-- The fragment of a condition on a field means what the condition does: whatever the condition is decided to be, its
fragment is read as. -/
theorem Condition.holds_fragment {c : Condition} (hc : c.Has searchShape) {path : String} {b : Bool}
    (h : (Registry.standard clock).evaluate c (item.resolve (Path.relative scope path)) = .ok b) :
    (c.fragment .identity path).holds (Clause.reads clock scope item) = b := by
  induction hc generalizing scope item path b with
  | @compare op operand hop =>
    rw [Registry.evaluate_compare] at h
    exact Comparison.holds_fragment hop h
  | @combine op members hshape _ ih =>
    have hmembers : ∀ c ∈ members, ∀ b,
        (Registry.standard clock).evaluate c (item.resolve (Path.relative scope path)) = .ok b →
          (c.fragment .identity path).holds (Clause.reads clock scope item) = b :=
      fun c hc b hb => ih c hc hb
    cases op with
    | all =>
      rw [Registry.evaluate_all] at h
      rw [fragment_all, Fragment.holds_mergeAll, List.all_map]
      exact all_of_allPass hmembers h
    | any =>
      by_cases hne : members = []
      · subst hne
        rw [List.map_nil, Registry.evaluate_any_nil] at h
        exact Except.ok.inj h
      · have hr := Clause.isReading_reads clock scope item
        rw [Registry.evaluate_any hne] at h
        rw [holds_any hr hne, List.any_map]
        refine any_of_anyPasses ?_ h
        intro c hc b hb
        rw [Function.comp_apply, Fragment.any_alternatives hr, splits_fragment (hshape c hc rfl)]
        exact hmembers c hc b hb
  | @nested op pairs _ _ ih =>
    -- Inside the collection, its path is the scope, and every field is called by its path in that scope.
    have hquery : ∀ element ∈ (item.resolve (Path.relative scope path)).elements, ∀ b,
        (Registry.standard clock).matchesQuery pairs element = .ok b →
          Clause.readsFragment clock path element (Query.fragment .identity path pairs) = b := by
      intro element _ b hb
      rw [Clause.readsFragment_eq]
      refine Query.holds_fragment_of ?_ hb
      intro p hp b hb
      refine ih p hp ?_
      rw [Path.relative_inside]
      exact hb
    cases op with
    | find =>
      rw [Registry.evaluate_find] at h
      rw [fragment_find, Fragment.holds_must, Clause.reads]
      exact any_of_anyPasses hquery h
    | nfind =>
      rw [Registry.evaluate_nfind] at h
      rw [fragment_nfind, Fragment.holds_exclude, Clause.reads]
      cases hany : anyPasses (fun element => (Registry.standard clock).matchesQuery pairs element)
          (item.resolve (Path.relative scope path)).elements with
      | error fault =>
        rw [hany] at h
        cases h
      | ok answer =>
        rw [hany] at h
        rw [any_of_anyPasses hquery hany]
        exact Except.ok.inj h

/-- The fragment of a query means what the query does. -/
theorem Query.holds_fragment {q : Query} (hq : Query.Has searchShape q) {b : Bool}
    (h : (Registry.standard clock).matchesQuery q item = .ok b) :
    (Query.fragment .identity scope q).holds (Clause.reads clock scope item) = b := by
  refine holds_fragment_of ?_ h
  intro p hp b hb
  refine Condition.holds_fragment (hq p hp).2 ?_
  rw [Path.relative_inside]
  exact hb

/-- A clause of a statement holds when the fragment of one of its queries does. -/
theorem reads_statementClause (fragments : List (Fragment Clause)) :
    Clause.reads clock scope item (Translator.statementClause fragments) =
      fragments.any fun f => f.holds (Clause.reads clock scope item) := by
  have hr := Clause.isReading_reads clock scope item
  match fragments with
  | [] => rfl
  | [f] =>
    rw [Translator.statementClause, hr.bool]
    simp
  | f :: g :: rest =>
    rw [Translator.statementClause, hr.anyOf, List.any_map]
    · exact List.any_congr rfl hr.bool
    · exact fun fragment h => by cases h

/-- A clause that asks for all of some clauses holds when they do. -/
theorem reads_every (clauses : List Clause) :
    Clause.reads clock scope item (.every clauses) = clauses.all (Clause.reads clock scope item) := by
  have hr := Clause.isReading_reads clock scope item
  match clauses with
  | [] => rfl
  | [c] => simp [Clause.every]
  | c :: d :: rest =>
    show Clause.reads clock scope item (.bool { filter := some (c :: d :: rest) }) = _
    rw [hr.bool]
    simp [Fragment.holds]

end Meaning

namespace Translator

variable {t : Translator}

/-- Statements are translated exactly when they can be written. Where they are, their clause means what they do:
whatever they are decided to be for an item, the clause is read as, and where every comparison can be decided, so are
they. -/
theorem reads_translateStatements (hmap : t.fieldMap = .identity) (hrules : t.rules = Rule.every)
    {statements : List (List Query)} (h : ∀ statement ∈ statements, ∀ q ∈ statement, t.ReachesQuery searchShape q) :
    ((∃ clause, (t.translateStatements (Filter.statementsOf statements)).result = .ok clause) ↔
        ∀ statement ∈ statements, ∀ q ∈ statement, ∀ p ∈ q, p.2.Has Condition.writtenDaysShape) ∧
      ∀ clause, (t.translateStatements (Filter.statementsOf statements)).result = .ok clause → ∀ clock item,
        (∀ b, (Registry.standard clock).matchesStatements (Filter.statementsOf statements) item = .ok b →
          Clause.reads clock "" item clause = b) ∧
        ((∀ statement ∈ statements, ∀ q ∈ statement, ∀ p ∈ q, p.2.Decided clock (item.resolve p.1)) →
          (Registry.standard clock).matchesStatements (Filter.statementsOf statements) item =
            .ok (Clause.reads clock "" item clause)) := by
  have hyields := yields_translateStatements (t := t)
    (yields_translateEach fun statement hstatement q hq p hp => (h statement hstatement q hq p hp).1)
  refine ⟨⟨?_, ?_⟩, ?_⟩
  · rintro ⟨clause, hclause⟩
    obtain ⟨_, ⟨-, hwritten⟩, -⟩ := hyields clause hclause
    exact hwritten
  · intro hwritten
    exact ⟨_, result_translateStatements hrules fun statement hstatement q hq p hp =>
      ⟨hwritten statement hstatement q hq p hp, (h statement hstatement q hq p hp).2⟩⟩
  intro clause hclause clock item
  obtain ⟨_, ⟨rfl, -⟩, rfl⟩ := hyields clause hclause
  have hmeaning : ∀ b, (Registry.standard clock).matchesStatements (Filter.statementsOf statements) item = .ok b →
      Clause.reads clock "" item (.every (statements.map (statementOf t.fieldMap))) = b := by
    intro b hb
    rw [Registry.matchesStatements_statementsOf] at hb
    rw [reads_every, List.all_map]
    refine all_of_allPass ?_ hb
    intro statement hstatement answer hanswer
    rw [Function.comp_apply, statementOf, reads_statementClause, List.any_map, hmap]
    refine any_of_anyPasses ?_ hanswer
    intro q hq found hfound
    exact Query.holds_fragment (fun p hp => ⟨trivial, (h statement hstatement q hq p hp).1⟩) hfound
  refine ⟨hmeaning, ?_⟩
  intro hdecided
  obtain ⟨b, hb⟩ : ∃ b, (Registry.standard clock).matchesStatements (Filter.statementsOf statements) item = .ok b := by
    rw [Registry.matchesStatements_statementsOf]
    refine allPass_answered fun statement hstatement => anyPasses_answered fun q hq => ?_
    rw [Registry.matchesQuery_eq]
    exact allPass_answered fun p hp => (hdecided statement hstatement q hq p hp).evaluate
  rw [hb, hmeaning b hb]

/-- A collection with an element of a page from the second on, or a field that is missing or differs from a text. -/
def pagedOrOther : List (List Query) :=
  [[[("visits", .find [("page", .within .gte (.int 2))])],
    [("tag", .combine .any ([.eq .null, .neq (.text "x")].map .condition))]]]

/-- An item with two visits and a tag. -/
def visited : Value :=
  .object [("visits", .list [.object [("page", .int 1)], .object [("page", .int 3)]]), ("tag", .text "x")]

theorem reaches_pagedOrOther :
    ∀ statement ∈ pagedOrOther, ∀ q ∈ statement, ReachesQuery {} searchShape q := by
  have hfind : (Condition.find [("page", .within .gte (.int 2))]).Has searchShape := by
    refine Condition.has_nested_iff.2 ?_
    intro p hp
    obtain rfl := List.mem_singleton.1 hp
    exact ⟨trivial, .compare trivial⟩
  have hany : (Condition.combine .any ([.eq .null, .neq (.text "x")].map .condition)).Has searchShape := by
    refine Condition.has_combine_iff.2 ?_
    simp only [List.forall_mem_cons, List.not_mem_nil, false_implies, implies_true, and_true]
    exact ⟨⟨fun _ => by decide, .compare trivial⟩, ⟨fun _ => by decide, .compare trivial⟩⟩
  simp only [pagedOrOther, ReachesQuery, List.forall_mem_cons, List.not_mem_nil, false_implies, implies_true, and_true]
  exact ⟨⟨hfind, .inr (by decide)⟩, ⟨hany, .inr (by decide)⟩⟩

theorem reads_translateStatements_visited :
    ∃ clause, (translateStatements {} (Filter.statementsOf pagedOrOther)).result = .ok clause ∧
      (Registry.standard .atStart).matchesStatements (Filter.statementsOf pagedOrOther) visited =
        .ok (Clause.reads .atStart "" visited clause) ∧ Clause.reads .atStart "" visited clause = true := by
  obtain ⟨htranslated, hmeaning⟩ := reads_translateStatements (t := {}) rfl rfl reaches_pagedOrOther
  have hwritten : ∀ statement ∈ pagedOrOther, ∀ q ∈ statement, ∀ p ∈ q, p.2.Has Condition.writtenDaysShape := by
    simp only [pagedOrOther, List.forall_mem_cons, List.not_mem_nil, false_implies, implies_true, and_true,
      Condition.find, Condition.writtenDays_nested_iff, Condition.writtenDays_combine_iff]
    exact ⟨.compare trivial, .compare trivial, .compare trivial⟩
  obtain ⟨clause, htranslate⟩ := htranslated.2 hwritten
  have hvisits : Condition.Decided .atStart (.find [("page", .within .gte (.int 2))]) (visited.resolve "visits") := by
    refine .nested ?_
    have helements : (visited.resolve "visits").elements =
        [.object [("page", .int 1)], .object [("page", .int 3)]] := rfl
    simp only [helements, List.forall_mem_cons, List.not_mem_nil, false_implies, implies_true, and_true]
    exact ⟨.compare rfl, .compare rfl⟩
  have htag : Condition.Decided .atStart (.combine .any ([.eq .null, .neq (.text "x")].map .condition))
      (visited.resolve "tag") := by
    refine .combine ?_
    simp only [List.forall_mem_cons, List.not_mem_nil, false_implies, implies_true, and_true]
    exact ⟨.compare rfl, .compare rfl⟩
  have hmeaning := hmeaning clause htranslate .atStart visited
  refine ⟨clause, htranslate, hmeaning.2 ?_, hmeaning.1 true rfl⟩
  simp only [pagedOrOther, List.forall_mem_cons, List.not_mem_nil, false_implies, implies_true, and_true]
  exact ⟨hvisits, htag⟩

end Translator

end Winnow
