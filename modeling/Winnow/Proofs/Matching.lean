import Winnow.Proofs.Outcome
import Winnow.Registry

/-!
# Matching as tests over lists

Statements about `Registry.evaluate` and `Registry.matchesStatements` with the standard registry. Conditions, queries
and statements are decided by going through a list up to the first item that decides (`allPass`, `anyPasses`). Where
every test of a list is answered, so is the whole, and whatever is answered agrees with the answers of the items.
-/

namespace Winnow

/-- A clock that stands at the beginning of the calendar. -/
def Clock.atStart : Clock where
  system := { micros := 0 }

section Tests

variable {ε α : Type} {test : α → Except ε Bool} {items : List α}

/-- Whether all of some items pass a test, the first that does not deciding. -/
def allPass (test : α → Except ε Bool) : List α → Except ε Bool
  | [] => .ok true
  | a :: rest => do if ← test a then allPass test rest else return false

/-- Whether some of some items passes a test, the first that does deciding. -/
def anyPasses (test : α → Except ε Bool) : List α → Except ε Bool
  | [] => .ok false
  | a :: rest => do if ← test a then return true else anyPasses test rest

/-- Items behind others are tested when all of those pass. -/
theorem allPass_append_eq (before after : List α) : allPass test (before ++ after) =
    (allPass test before >>= fun passed => if passed then allPass test after else .ok false) := by
  induction before with
  | nil => rfl
  | cons a rest ih =>
    rw [List.cons_append, allPass, allPass]
    cases test a with
    | error fault => rfl
    | ok answer =>
      cases answer with
      | true => exact ih
      | false => rfl

theorem allPass_append {before after : List α} {b c : Bool} (hb : allPass test before = .ok b)
    (hc : allPass test after = .ok c) : allPass test (before ++ after) = .ok (b && c) := by
  rw [allPass_append_eq, hb, ok_bind, hc]
  cases b <;> rfl

theorem allPass_singleton (test : α → Except ε Bool) (a : α) : allPass test [a] = test a := by
  rw [allPass]
  rcases test a with fault | (_ | _) <;> rfl

theorem anyPasses_singleton (test : α → Except ε Bool) (a : α) : anyPasses test [a] = test a := by
  rw [anyPasses]
  rcases test a with fault | (_ | _) <;> rfl

/-- Tests of what items are sent to. -/
theorem allPass_map {β : Type} (f : β → α) (items : List β) :
    allPass test (items.map f) = allPass (fun b => test (f b)) items := by
  induction items with
  | nil => rfl
  | cons b rest ih => rw [List.map_cons, allPass, allPass, ih]

theorem anyPasses_map {β : Type} (f : β → α) (items : List β) :
    anyPasses test (items.map f) = anyPasses (fun b => test (f b)) items := by
  induction items with
  | nil => rfl
  | cons b rest ih => rw [List.map_cons, anyPasses, anyPasses, ih]

/-- Tests that agree on every item agree on all of them. -/
theorem allPass_congr {test' : α → Except ε Bool} (h : ∀ a ∈ items, test a = test' a) :
    allPass test items = allPass test' items := by
  induction items with
  | nil => rfl
  | cons a rest ih => rw [allPass, allPass, h a (.head _), ih fun b hb => h b (.tail _ hb)]

theorem anyPasses_congr {test' : α → Except ε Bool} (h : ∀ a ∈ items, test a = test' a) :
    anyPasses test items = anyPasses test' items := by
  induction items with
  | nil => rfl
  | cons a rest ih => rw [anyPasses, anyPasses, h a (.head _), ih fun b hb => h b (.tail _ hb)]

theorem anyPasses_cons {a : α} {b c : Bool} (hb : test a = .ok b) (hc : anyPasses test items = .ok c) :
    anyPasses test (a :: items) = .ok (b || c) := by
  rw [anyPasses, hb, ok_bind, hc]
  cases b <;> rfl

/-- Tests that are all answered are answered together. -/
theorem anyPasses_of_ok {g : α → Bool} (h : ∀ a ∈ items, test a = .ok (g a)) :
    anyPasses test items = .ok (items.any g) := by
  induction items with
  | nil => rfl
  | cons a rest ih => exact anyPasses_cons (h a (.head _)) (ih fun b hb => h b (.tail _ hb))

/-- An answer agrees with those of the items, asked for or not. -/
theorem all_of_allPass {g : α → Bool} (h : ∀ a ∈ items, ∀ b, test a = .ok b → g a = b) {b : Bool}
    (hall : allPass test items = .ok b) : items.all g = b := by
  induction items with
  | nil => exact Except.ok.inj hall
  | cons a rest ih =>
    rw [allPass] at hall
    cases ha : test a with
    | error fault =>
      rw [ha] at hall
      cases hall
    | ok answer =>
      rw [ha, ok_bind] at hall
      rw [List.all_cons, h a (.head _) answer ha]
      cases answer with
      | false => exact Except.ok.inj hall
      | true => exact ih (fun c hc => h c (.tail _ hc)) hall

theorem any_of_anyPasses {g : α → Bool} (h : ∀ a ∈ items, ∀ b, test a = .ok b → g a = b) {b : Bool}
    (hany : anyPasses test items = .ok b) : items.any g = b := by
  induction items with
  | nil => exact Except.ok.inj hany
  | cons a rest ih =>
    rw [anyPasses] at hany
    cases ha : test a with
    | error fault =>
      rw [ha] at hany
      cases hany
    | ok answer =>
      rw [ha, ok_bind] at hany
      rw [List.any_cons, h a (.head _) answer ha]
      cases answer with
      | true => exact Except.ok.inj hany
      | false => exact ih (fun c hc => h c (.tail _ hc)) hany

/-- All items pass when the answer is that all do. -/
theorem allPass_eq_true_iff : allPass test items = .ok true ↔ ∀ a ∈ items, test a = .ok true := by
  induction items with
  | nil => exact iff_of_true rfl (List.forall_mem_nil _)
  | cons a rest ih =>
    rw [allPass, List.forall_mem_cons, ← ih]
    rcases test a with fault | (_ | _)
    · exact iff_of_false nofun fun h => nomatch h.1
    · exact iff_of_false nofun fun h => nomatch h.1
    · simp

/-- Some item passes when the answer is that one does. -/
theorem exists_of_anyPasses (h : anyPasses test items = .ok true) : ∃ a ∈ items, test a = .ok true := by
  induction items with
  | nil => cases h
  | cons a rest ih =>
    rw [anyPasses] at h
    obtain ⟨answer, ha, h⟩ := bind_eq_ok h
    cases answer with
    | true => exact ⟨a, .head _, ha⟩
    | false =>
      obtain ⟨b, hb, hpasses⟩ := ih h
      exact ⟨b, .tail _ hb, hpasses⟩

/-- Every item is tested, and none passes, when the answer is that none does. -/
theorem forall_of_anyPasses (h : anyPasses test items = .ok false) : ∀ a ∈ items, test a = .ok false := by
  induction items with
  | nil => exact List.forall_mem_nil _
  | cons a rest ih =>
    rw [anyPasses] at h
    obtain ⟨answer, ha, h⟩ := bind_eq_ok h
    cases answer with
    | true => cases h
    | false => exact List.forall_mem_cons.2 ⟨ha, ih h⟩

/-- An answer is whether some item has what an answer about it stands for. -/
theorem eq_true_iff_of_anyPasses {P : α → Prop} (h : ∀ a ∈ items, ∀ b, test a = .ok b → (b = true ↔ P a)) {b : Bool}
    (hany : anyPasses test items = .ok b) : b = true ↔ ∃ a ∈ items, P a := by
  cases b with
  | true =>
    obtain ⟨a, ha, hpasses⟩ := exists_of_anyPasses hany
    exact iff_of_true rfl ⟨a, ha, (h a ha true hpasses).1 rfl⟩
  | false =>
    refine iff_of_false nofun ?_
    rintro ⟨a, ha, hP⟩
    cases (h a ha false (forall_of_anyPasses hany a ha)).2 hP

/-- Tests that are all answered are answered together. -/
theorem allPass_answered (h : ∀ a ∈ items, ∃ b, test a = .ok b) : ∃ b, allPass test items = .ok b := by
  induction items with
  | nil => exact ⟨true, rfl⟩
  | cons a rest ih =>
    obtain ⟨answer, ha⟩ := h a (.head _)
    rw [allPass, ha, ok_bind]
    cases answer with
    | false => exact ⟨false, rfl⟩
    | true => exact ih fun b hb => h b (.tail _ hb)

theorem anyPasses_answered (h : ∀ a ∈ items, ∃ b, test a = .ok b) : ∃ b, anyPasses test items = .ok b := by
  induction items with
  | nil => exact ⟨false, rfl⟩
  | cons a rest ih =>
    obtain ⟨answer, ha⟩ := h a (.head _)
    rw [anyPasses, ha, ok_bind]
    cases answer with
    | true => exact ⟨true, rfl⟩
    | false => exact ih fun b hb => h b (.tail _ hb)

end Tests

/-- An answer negated twice is itself. -/
theorem map_map_not {ε : Type} (x : Except ε Bool) : (x.map (!·)).map (!·) = x := by
  rcases x with fault | (_ | _) <;> rfl

theorem anyHolds_eq (items : List Value) (test : Value → Except Fault Bool) :
    anyHolds items test = anyPasses test items := by
  induction items with
  | nil => rfl
  | cons v rest ih => rw [anyHolds, anyPasses, ih]

namespace Value

theorem throughItems_eq (f : Value → Value) (items : List Value) : throughItems f items = items.map (throughLists f) := by
  induction items with
  | nil => rfl
  | cons v rest ih => rw [throughItems, ih, List.map_cons]

theorem elementsOfItems_eq_flatMap (items : List Value) : elementsOfItems items = items.flatMap elements := by
  induction items with
  | nil => rfl
  | cons v rest ih => rw [elementsOfItems, ih, List.flatMap_cons]

/-- The values of a sequence are those of its items. -/
theorem mem_elementsOfItems {items : List Value} {element : Value} :
    element ∈ elementsOfItems items ↔ ∃ v ∈ items, element ∈ v.elements := by
  rw [elementsOfItems_eq_flatMap, List.mem_flatMap]

end Value

namespace Comparison

variable {values : List Value} {w : Value}

/-- Values contain another when one of them, taken alone, does. -/
theorem contains_eq_anyPasses (values : List Value) (w : Value) :
    contains values w = anyPasses (fun v => contains [v] w) values := by
  induction values with
  | nil => rfl
  | cons v rest ih =>
    rw [anyPasses, ← ih, contains, contains]
    rcases Comparable.of v w with fault | (_ | pair)
    · rfl
    · rfl
    · simp only [ok_bind]
      rcases Fault.ofTest pair.same? with fault | (_ | _) <;> rfl

/-- Values are within a bound when one of them, taken alone, is. -/
theorem withinBound_eq_anyPasses (b : Bound) (values : List Value) (limit : Value) :
    withinBound b values limit = anyPasses (fun v => withinBound b [v] limit) values := by
  induction values with
  | nil => rfl
  | cons v rest ih =>
    rw [anyPasses, ← ih, withinBound, withinBound]
    rcases Comparable.of v limit with fault | (_ | pair)
    · rfl
    · rfl
    · simp only [ok_bind]
      rcases pair.order with (_ | _) | order
      · rfl
      · rfl
      · dsimp only
        cases b.admits order <;> rfl

/-- Values differ from another when they do not contain it, and are missing when they are not present. -/
theorem holds_neq_eq_not (clock : Clock) (values : List Value) (operand : Value) :
    neq.holds clock values operand = (eq.holds clock values operand).map (!·) := by
  cases operand <;> rfl

/-- Values that can each be tested for equality contain another when one of them is equal to it. -/
theorem contains_of {same : Value → Bool}
    (h : ∀ v ∈ values, ∃ pair, Comparable.of v w = .ok (some pair) ∧ pair.same? = some (same v)) :
    contains values w = .ok (values.any same) := by
  rw [contains_eq_anyPasses]
  refine anyPasses_of_ok fun v hv => ?_
  obtain ⟨pair, hpair, hsame⟩ := h v hv
  rw [contains, hpair, ok_bind]
  simp only [hsame, Fault.ofTest, ok_bind]
  cases same v <;> rfl

/-- Values that can each be ordered are within a bound when the order of one of them satisfies it. -/
theorem withinBound_of {order : Value → Option Ordering} (bound : Bound)
    (h : ∀ v ∈ values, ∃ pair, Comparable.of v w = .ok (some pair) ∧ pair.order = .ok (order v)) :
    withinBound bound values w = .ok (values.any fun v => bound.admits (order v)) := by
  rw [withinBound_eq_anyPasses]
  refine anyPasses_of_ok fun v hv => ?_
  obtain ⟨pair, hpair, horder⟩ := h v hv
  rw [withinBound, hpair, ok_bind]
  simp only [horder]
  cases bound.admits (order v) <;> rfl

end Comparison

namespace Registry

/-- The outcome of a condition whose operator has a given built-in rule. -/
def decided (r : Registry) (op : Operator) (rule : Except Fault Bool) : Except Fault Bool :=
  match r.get? op with
  | none => .error (.unregistered op)
  | some (.constant answer) => .ok answer
  | some .builtIn => rule

section Decided

variable (r : Registry) (members : List Value) (operand value : Value)

theorem evaluate_compare_eq (op : Comparison) : r.evaluate (.compare op operand) value =
    r.decided (.comparison op) (op.holds r.clock value.elements operand) := by
  rw [evaluate]
  rfl

theorem evaluate_all_eq :
    r.evaluate (.combine .all members) value = r.decided (.combinator .all) (r.everyMember members value) := by
  rw [evaluate]
  rfl

theorem evaluate_any_eq : r.evaluate (.combine .any members) value =
    r.decided (.combinator .any) (if members.isEmpty then .ok true else r.someMember members value) := by
  rw [evaluate]
  rfl

theorem evaluate_find_eq : r.evaluate (.nested .find operand) value =
    r.decided (.membership .find) (anyPasses (r.matchesOperand operand) value.elements) := by
  rw [evaluate, ← anyHolds_eq]
  rfl

theorem evaluate_nfind_eq : r.evaluate (.nested .nfind operand) value =
    r.decided (.membership .nfind) ((anyPasses (r.matchesOperand operand) value.elements).map (!·)) := by
  rw [evaluate, ← anyHolds_eq]
  rfl

end Decided

variable {clock : Clock}

/-- The standard registry decides every operator by its built-in rule. -/
theorem get?_standard (clock : Clock) (op : Operator) : (standard clock).get? op = some .builtIn := by
  rcases op with (_ | _ | (_ | _ | _ | _) | _) | (_ | _) | (_ | _) <;> rfl

theorem decided_standard (clock : Clock) (op : Operator) (rule : Except Fault Bool) :
    (standard clock).decided op rule = rule := by
  rw [decided, get?_standard]

theorem evaluate_compare (op : Comparison) (operand value : Value) :
    (standard clock).evaluate (.compare op operand) value = op.holds clock value.elements operand := by
  rw [evaluate_compare_eq, decided_standard]
  rfl

theorem everyMember_map (r : Registry) (members : List Condition) (value : Value) :
    r.everyMember (members.map .condition) value = allPass (fun c => r.evaluate c value) members := by
  induction members with
  | nil => rfl
  | cons c rest ih => rw [List.map_cons, everyMember, evaluateMember, ih, allPass]

theorem someMember_map (r : Registry) (members : List Condition) (value : Value) :
    r.someMember (members.map .condition) value = anyPasses (fun c => r.evaluate c value) members := by
  induction members with
  | nil => rfl
  | cons c rest ih => rw [List.map_cons, someMember, evaluateMember, ih, anyPasses]

/-- A query holds of an item when each of its conditions holds of what its field leads to. -/
theorem matchesQuery_eq (r : Registry) (q : Query) (item : Value) :
    r.matchesQuery q item = allPass (fun p => r.evaluate p.2 (item.resolve p.1)) q := by
  rw [matchesQuery]
  induction q with
  | nil => rfl
  | cons p rest ih =>
    obtain ⟨field, c⟩ := p
    rw [matchesPairs, ih, allPass]

theorem matchesQuery_single_eq (r : Registry) (field : String) (c : Condition) (item : Value) :
    r.matchesQuery (Query.single field c) item = r.evaluate c (item.resolve field) := by
  rw [matchesQuery_eq]
  exact allPass_singleton _ _

theorem evaluate_all (members : List Condition) (value : Value) :
    (standard clock).evaluate (.combine .all (members.map .condition)) value =
      allPass (fun c => (standard clock).evaluate c value) members := by
  rw [evaluate_all_eq, decided_standard, everyMember_map]

theorem evaluate_any {members : List Condition} (hne : members ≠ []) (value : Value) :
    (standard clock).evaluate (.combine .any (members.map .condition)) value =
      anyPasses (fun c => (standard clock).evaluate c value) members := by
  have hempty : (members.map Value.condition).isEmpty = false := by simpa using hne
  rw [evaluate_any_eq, decided_standard, hempty, someMember_map]
  rfl

theorem evaluate_any_nil (value : Value) : (standard clock).evaluate (.combine .any []) value = .ok true := by
  rw [evaluate_any_eq, decided_standard]
  rfl

theorem evaluate_find (q : Query) (value : Value) :
    (standard clock).evaluate (.nested .find (.query q)) value =
      anyPasses (fun element => (standard clock).matchesQuery q element) value.elements := by
  rw [evaluate_find_eq, decided_standard]
  rfl

theorem evaluate_nfind (q : Query) (value : Value) :
    (standard clock).evaluate (.nested .nfind (.query q)) value =
      (anyPasses (fun element => (standard clock).matchesQuery q element) value.elements).map (!·) := by
  rw [evaluate_nfind_eq, decided_standard]
  rfl

/-- A statement of given queries holds when one of them does. -/
theorem matchesStatement_map (r : Registry) (statement : List Query) (item : Value) :
    r.matchesStatement (statement.map .query) item = anyPasses (fun q => r.matchesQuery q item) statement := by
  rw [matchesStatement, anyHolds_eq, anyPasses_map]
  rfl

/-- One more alternative in front. -/
theorem anyPasses_query_cons {r : Registry} {q : Query} {rest : List Query} {item : Value} {b c : Bool}
    (hq : r.matchesQuery q item = .ok b) (hrest : anyPasses (fun q => r.matchesQuery q item) rest = .ok c) :
    anyPasses (fun q => r.matchesQuery q item) (q :: rest) = .ok (b || c) :=
  anyPasses_cons hq hrest

/-- Statements hold when each of them does. -/
theorem matchesStatements_eq (r : Registry) (statements : List Statement) (item : Value) :
    r.matchesStatements statements item = allPass (fun statement => r.matchesStatement statement item) statements := by
  induction statements with
  | nil => rfl
  | cons statement rest ih => rw [matchesStatements, ih, allPass]

/-- Statements of given queries hold when a query of each of them does. -/
theorem matchesStatements_statementsOf (r : Registry) (statements : List (List Query)) (item : Value) :
    r.matchesStatements (Filter.statementsOf statements) item =
      allPass (fun statement => anyPasses (fun q => r.matchesQuery q item) statement) statements := by
  rw [matchesStatements_eq, Filter.statementsOf, allPass_map]
  exact allPass_congr fun statement _ => matchesStatement_map r statement item

end Registry

end Winnow
