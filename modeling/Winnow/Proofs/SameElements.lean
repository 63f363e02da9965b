import Winnow.Proofs.Matching

/-!
# A field as a set of values

A field has any number of values, and a condition looks at them as a set: their order, how often they occur, the lists
that they stand in and the nulls between them make no difference to an answer (`Registry.evaluate_eq_of_sameElements`).
They may make one to whether there is an answer, since values are looked at one after the other up to the first that
decides, so that two outcomes are compared where both are answers (`Concur`). Each comparison asks for one value of a
certain sort, or is the negation of one that does (`Comparison.AsksForOne`). What is so of the built-in rules is so of
conditions, for any relation of outcomes that passes on from steps (`Registry.Related.evaluate`).
-/

namespace Winnow

/-- Two values hold the same values of a field, in whatever order, number and lists. -/
def Value.SameElements (v w : Value) : Prop :=
  ∀ element, element ∈ v.elements ↔ element ∈ w.elements

/-! ## Outcomes that do not differ -/

/-- Two outcomes are the same where both are answers. -/
def Concur {ε α : Type} (x y : Except ε α) : Prop :=
  ∀ a, x = .ok a → ∀ b, y = .ok b → a = b

namespace Concur

variable {ε α β : Type}

theorem refl (x : Except ε α) : Concur x x := by
  intro a ha b hb
  rw [ha] at hb
  exact Except.ok.inj hb

theorem bind {x y : Except ε α} {f g : α → Except ε β} (hx : Concur x y) (hf : ∀ a, Concur (f a) (g a)) :
    Concur (x >>= f) (y >>= g) := by
  intro a ha b hb
  obtain ⟨c, hc, ha⟩ := bind_eq_ok ha
  obtain ⟨d, hd, hb⟩ := bind_eq_ok hb
  obtain rfl := hx c hc d hd
  exact hf c a ha b hb

theorem map {x y : Except ε α} (hx : Concur x y) (f : α → β) : Concur (x.map f) (y.map f) := by
  intro a ha b hb
  cases x with
  | error fault => cases ha
  | ok c =>
    cases y with
    | error fault => cases hb
    | ok d =>
      obtain rfl := hx c rfl d rfl
      cases ha
      cases hb
      rfl

/-- Tests of the same items, in whatever order and number, have the same answer to whether some item passes. -/
theorem anyPasses {items items' : List α} (h : ∀ a, a ∈ items ↔ a ∈ items') (test : α → Except ε Bool) :
    Concur (anyPasses test items) (Winnow.anyPasses test items') := by
  have hiff {items : List α} {b : Bool} (hb : Winnow.anyPasses test items = .ok b) :
      b = true ↔ ∃ a ∈ items, test a = .ok true := by
    refine eq_true_iff_of_anyPasses (fun a _ answer ha => ?_) hb
    rw [ha, Except.ok.injEq]
  intro b hb c hc
  rw [Bool.eq_iff_iff, hiff hb, hiff hc]
  simp only [h]

end Concur

/-! ## Comparisons -/

namespace Comparison

variable {clock : Clock} {operand : Value} {values values' : List Value} {op : Comparison}

/-- A comparison asks whether there is a value of a certain sort, or any value at all. -/
def AsksForOne : Comparison → Value → Prop
  | eq, operand => operand ≠ .null
  | neq, operand => operand = .null
  | bound _, _ => True
  | startsWith, _ => True

/-- What asks for one value is answered by asking the values one by one. -/
theorem AsksForOne.anyPasses_of_holds (hop : op.AsksForOne operand) {answer : Bool}
    (h : op.holds clock values operand = .ok answer) :
    anyPasses (fun v => op.holds clock [v] operand) values = .ok answer := by
  cases op with
  | eq =>
    have heq (values : List Value) : eq.holds clock values operand = contains values operand := by
      cases operand with
      | null => exact absurd rfl hop
      | _ => rfl
    rw [heq] at h
    rw [← h, contains_eq_anyPasses]
    exact anyPasses_congr fun v _ => heq [v]
  | neq =>
    obtain rfl : operand = .null := hop
    cases values <;> exact h
  | bound b =>
    obtain ⟨limit, hlimit, h⟩ := bind_eq_ok (show (RelativeDate.resolve clock b operand >>= withinBound b values) = _ from h)
    rw [← h, withinBound_eq_anyPasses]
    refine anyPasses_congr fun v _ => ?_
    show (RelativeDate.resolve clock b operand >>= withinBound b [v]) = _
    rw [hlimit, ok_bind]
  | startsWith =>
    by_cases hnull : operand = .null
    · subst hnull
      cases h
      have hnone : anyPasses (fun v => startsWith.holds clock [v] .null) values = .ok (values.any fun _ => false) :=
        anyPasses_of_ok fun v _ => rfl
      rw [hnone, List.any_eq_false.2 (by simp)]
    · have hholds (values : List Value) :
          startsWith.holds clock values operand = (Fault.ofWriting operand.plainText).map (startsAny values) := by
        cases operand with
        | null => exact absurd rfl hnull
        | _ => rfl
      cases hstart : operand.plainText with
      | none =>
        rw [hholds, hstart] at h
        cases h
      | some start =>
        have hstarts (values : List Value) : startsWith.holds clock values operand = .ok (startsAny values start) := by
          rw [hholds, hstart]
          rfl
        rw [← h, hstarts, startsAny]
        refine anyPasses_of_ok fun v _ => ?_
        rw [hstarts, startsAny, List.any_cons, List.any_nil, Bool.or_false]

/-- The same values have the same answer. -/
theorem concur_holds (h : ∀ v, v ∈ values ↔ v ∈ values') (clock : Clock) (op : Comparison) (operand : Value) :
    Concur (op.holds clock values operand) (op.holds clock values' operand) := by
  have hone (op : Comparison) (hop : op.AsksForOne operand) :
      Concur (op.holds clock values operand) (op.holds clock values' operand) := by
    intro a ha b hb
    exact Concur.anyPasses h _ a (hop.anyPasses_of_holds ha) b (hop.anyPasses_of_holds hb)
  by_cases hop : op.AsksForOne operand
  · exact hone op hop
  · cases op with
    | eq =>
      have hneq (values : List Value) : (eq.holds clock values operand) = (neq.holds clock values operand).map (!·) := by
        rw [holds_neq_eq_not, map_map_not]
      rw [hneq, hneq]
      exact (hone .neq (Classical.not_not.1 hop)).map _
    | neq =>
      rw [holds_neq_eq_not, holds_neq_eq_not]
      exact (hone .eq hop).map _
    | bound b => exact absurd trivial hop
    | startsWith => exact absurd trivial hop

end Comparison

/-! ## Conditions -/

namespace Registry

variable {r : Registry} {R : Except Fault Bool → Except Fault Bool → Prop} {v w : Value}

/-- Two values on which the built-in rules have related outcomes, outcomes being related if those of their steps are. -/
structure Related (r : Registry) (R : Except Fault Bool → Except Fault Bool → Prop) (v w : Value) : Prop where
  refl : ∀ x, R x x
  bind : ∀ {x y : Except Fault Bool} {f g : Bool → Except Fault Bool},
    R x y → (∀ b, R (f b) (g b)) → R (x >>= f) (y >>= g)
  holds : ∀ (op : Comparison) operand,
    R (op.holds r.clock v.elements operand) (op.holds r.clock w.elements operand)
  search : ∀ test, R (anyPasses test v.elements) (anyPasses test w.elements)

namespace Related

variable {x y : Except Fault Bool}

theorem negation (h : r.Related R v w) (hxy : R x y) : R (x.map (!·)) (y.map (!·)) := by
  have hsteps (x : Except Fault Bool) : x.map (!·) = (x >>= fun b => .ok !b) := by cases x <;> rfl
  rw [hsteps, hsteps]
  exact h.bind hxy fun b => h.refl _

theorem decided (h : r.Related R v w) (op : Operator) (hxy : R x y) : R (r.decided op x) (r.decided op y) := by
  unfold Registry.decided
  split
  · exact h.refl _
  · exact h.refl _
  · exact hxy

mutual

/-- The outcomes of a condition are related if those of the built-in rules are. Its members look at the values that it
looks at; a membership asks each value the same question. -/
theorem evaluate (h : r.Related R v w) : (c : Condition) → R (r.evaluate c v) (r.evaluate c w)
  | .compare op operand => by
    rw [evaluate_compare_eq, evaluate_compare_eq]
    exact h.decided _ (h.holds op operand)
  | .combine .all members => by
    rw [evaluate_all_eq, evaluate_all_eq]
    exact h.decided _ (everyMember h members)
  | .combine .any members => by
    rw [evaluate_any_eq, evaluate_any_eq]
    refine h.decided _ ?_
    split
    · exact h.refl _
    · exact someMember h members
  | .nested .find operand => by
    rw [evaluate_find_eq, evaluate_find_eq]
    exact h.decided _ (h.search _)
  | .nested .nfind operand => by
    rw [evaluate_nfind_eq, evaluate_nfind_eq]
    exact h.decided _ (h.negation (h.search _))
termination_by structural c => c

theorem everyMember (h : r.Related R v w) :
    (members : List Value) → R (r.everyMember members v) (r.everyMember members w)
  | [] => h.refl _
  | member :: rest => by
    rw [Registry.everyMember, Registry.everyMember]
    refine h.bind (evaluateMember h member) fun answer => ?_
    split
    · exact everyMember h rest
    · exact h.refl _
termination_by structural members => members

theorem someMember (h : r.Related R v w) :
    (members : List Value) → R (r.someMember members v) (r.someMember members w)
  | [] => h.refl _
  | member :: rest => by
    rw [Registry.someMember, Registry.someMember]
    refine h.bind (evaluateMember h member) fun answer => ?_
    split
    · exact h.refl _
    · exact someMember h rest
termination_by structural members => members

theorem evaluateMember (h : r.Related R v w) :
    (member : Value) → R (r.evaluateMember member v) (r.evaluateMember member w)
  | .condition c => evaluate h c
  | .null | .bool _ | .int _ | .float _ | .decimal _ | .text _ | .date _ | .datetime _ | .time _ | .uuid _
  | .symbol _ _ _ | .operator _ | .direction _ | .daysAgo _ | .list _ | .tuple _ | .object _ | .record _ | .query _ =>
    h.refl _
termination_by structural member => member

end

end Related

/-- The same values have the same answer to a condition. -/
theorem concur_evaluate (h : v.SameElements w) (c : Condition) : Concur (r.evaluate c v) (r.evaluate c w) := by
  have hrelated : r.Related Concur v w :=
    { refl := .refl
      bind := .bind
      holds := Comparison.concur_holds h r.clock
      search := Concur.anyPasses h }
  exact hrelated.evaluate c

/-- A condition has the same answer on two fields that hold the same values, in whatever order and number, in whatever
lists and with whatever nulls between them, wherever it has an answer on both. -/
theorem evaluate_eq_of_sameElements (r : Registry) (c : Condition) {v w : Value} (h : v.SameElements w) {b b' : Bool}
    (hv : r.evaluate c v = .ok b) (hw : r.evaluate c w = .ok b') : b = b' :=
  concur_evaluate h c b hv b' hw

/-- Five is among the values, one of them is less than two or has a late page, and none is x. -/
def fiveOrLatePage : Condition :=
  .combine .all ([.eq (.int 5), .combine .any ([.within .lt (.int 2),
    .find [("page", .within .gte (.int 7))]].map .condition), .compare .neq (.text "x")].map .condition)

/-- A number and an element of a collection, each twice, in lists of lists with nulls. -/
def scattered : Value :=
  .list [.list [.int 5, .null], .object [("page", .int 9)], .list [.list [.int 5]], .object [("page", .int 9)]]

/-- The two the other way round, in a tuple with an empty list. -/
def gathered : Value :=
  .tuple [.object [("page", .int 9)], .list [], .int 5]

theorem evaluate_eq_of_sameElements_scattered :
    scattered.SameElements gathered ∧ ∃ b b', (standard .atStart).evaluate fiveOrLatePage scattered = .ok b ∧
      (standard .atStart).evaluate fiveOrLatePage gathered = .ok b' ∧ b = b' := by
  have hsame : scattered.SameElements gathered := by
    intro element
    simp only [scattered, gathered, Value.elements, Value.elementsOfItems, List.mem_append, List.mem_cons,
      List.not_mem_nil]
    grind
  exact ⟨hsame, true, true, rfl, rfl, evaluate_eq_of_sameElements (standard .atStart) fiveOrLatePage hsame rfl rfl⟩

end Registry

end Winnow
