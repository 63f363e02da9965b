import Winnow.Proofs.SameElements
import Winnow.Proofs.ValueOrder

/-!
# Elements of collections and longer paths

A path made of two leads to the values that the second leads to in each of the values that the first leads to
(`Value.elements_follow_append`), whatever lists stand on the way, and also where a part is missing or a value has no
parts. So what is asked of the elements of a collection, one after the other, may as well be asked of all their values
at once, if it asks whether there is a value of a certain sort (`Condition.Existential`): the search of a collection
for an element with one such condition is that condition on a longer path (`Condition.Existential.find_eq_dotted`).
-/

namespace Winnow

/-! ## Paths made of two -/

theorem Path.parts_join (outer inner : String) : parts (join outer inner) = parts outer ++ parts inner := by
  have hchars : (join outer inner).toList = outer.toList ++ '.' :: inner.toList := by
    simp [join]
  rw [parts, hchars, Text.splitOn_append_cons, List.map_append]
  rfl

namespace Value

theorem IsSingle.throughLists {v : Value} (h : v.IsSingle) (f : Value → Value) : v.throughLists f = f v := by
  cases v with
  | null | list | tuple => exact absurd h id
  | _ => rfl

/-- What a function carried through lists leads to holds the values that the function leads to from each value. -/
theorem elements_throughLists (f : Value → Value) (v : Value) :
    (v.throughLists f).elements = v.elements.flatMap fun x => (f x).elements := by
  induction v using Value.sequence_induction with
  | null => rfl
  | single v hv => rw [hv.throughLists, hv.elements, List.flatMap_singleton]
  | list items hitems | tuple items hitems =>
    rw [throughLists, elements, elements, throughItems_eq, elementsOfItems_eq_flatMap, elementsOfItems_eq_flatMap,
      List.flatMap_map, List.flatMap_assoc]
    exact List.flatMap_congr hitems

/-- Names are followed from each value of a field. -/
theorem elements_follow (names : List String) (v : Value) :
    (follow names v).elements = v.elements.flatMap fun x => (follow names x).elements := by
  have hsingle : ∀ x ∈ v.elements, x.IsSingle := v.isSingle_of_mem_elements
  cases names with
  | nil =>
    calc v.elements = v.elements.flatMap fun x => [x] := (List.flatMap_singleton' _).symm
      _ = v.elements.flatMap fun x => x.elements := List.flatMap_congr fun x hx => (hsingle x hx).elements.symm
  | cons part rest =>
    rw [follow, elements_throughLists]
    refine List.flatMap_congr fun x hx => ?_
    rw [follow, (hsingle x hx).throughLists]

/-- Names behind others are followed from each value that those lead to. -/
theorem elements_follow_append (front back : List String) (v : Value) : (follow (front ++ back) v).elements =
    (follow front v).elements.flatMap fun x => (follow back x).elements := by
  induction front generalizing v with
  | nil => exact elements_follow back v
  | cons part rest ih =>
    rw [List.cons_append, follow, follow, elements_throughLists, elements_throughLists, List.flatMap_assoc]
    exact List.flatMap_congr fun x _ => ih (x.member part)

/-- The values of the field that a path made of two leads to are those that the second leads to from each value of the
field that the first leads to, in order. -/
theorem elements_resolve_join (v : Value) (outer inner : String) : (v.resolve (Path.join outer inner)).elements =
    (v.resolve outer).elements.flatMap fun x => (x.resolve inner).elements := by
  rw [resolve, Path.parts_join, elements_follow_append]
  rfl

end Value

/-! ## Conditions that one value decides -/

/-- A condition that asks whether a field has a value of a certain sort: a comparison that does, the search of the field
for an element, or an alternative of such conditions. -/
inductive Condition.Existential : Condition → Prop where
  | compare {op : Comparison} {operand : Value} : op.AsksForOne operand → Existential (.compare op operand)
  | find (operand : Value) : Existential (.nested .find operand)
  | any {members : List Condition} : members ≠ [] → (∀ c ∈ members, Existential c) →
      Existential (.combine .any (members.map .condition))

namespace Registry

variable {clock : Clock} {value : Value}

/-- A condition that holds of a field holds of one of its values, and one that does not holds of none. -/
structure DecidedByOne (clock : Clock) (c : Condition) (value : Value) : Prop where
  holds : (standard clock).evaluate c value = .ok true →
    ∃ x ∈ value.elements, (standard clock).evaluate c x = .ok true
  fails : (standard clock).evaluate c value = .ok false →
    ∀ x ∈ value.elements, (standard clock).evaluate c x = .ok false

/-- A condition is decided by one value if it is answered by asking the values one by one. -/
theorem DecidedByOne.of_anyPasses {c : Condition} (h : ∀ answer, (standard clock).evaluate c value = .ok answer →
    anyPasses (fun x => (standard clock).evaluate c x) value.elements = .ok answer) : DecidedByOne clock c value where
  holds heval := exists_of_anyPasses (h true heval)
  fails heval := forall_of_anyPasses (h false heval)

/-- Alternatives that are each decided by one value are so together: the first that holds does so of a value of which
those before it do not hold. -/
theorem DecidedByOne.anyPasses {members : List Condition} (h : ∀ c ∈ members, DecidedByOne clock c value) :
    (anyPasses (fun c => (standard clock).evaluate c value) members = .ok true →
      ∃ x ∈ value.elements, anyPasses (fun c => (standard clock).evaluate c x) members = .ok true) ∧
    (anyPasses (fun c => (standard clock).evaluate c value) members = .ok false →
      ∀ x ∈ value.elements, anyPasses (fun c => (standard clock).evaluate c x) members = .ok false) := by
  induction members with
  | nil => exact ⟨nofun, fun _ _ _ => rfl⟩
  | cons c rest ih =>
    obtain ⟨hc, hrest⟩ := List.forall_mem_cons.1 h
    obtain ⟨ihholds, ihfails⟩ := ih hrest
    simp only [Winnow.anyPasses]
    constructor
    · intro heval
      obtain ⟨answer, hanswer, heval⟩ := bind_eq_ok heval
      cases answer with
      | true =>
        obtain ⟨x, hx, htrue⟩ := hc.holds hanswer
        exact ⟨x, hx, by rw [htrue]; rfl⟩
      | false =>
        obtain ⟨x, hx, htrue⟩ := ihholds heval
        exact ⟨x, hx, by rw [hc.fails hanswer x hx]; exact htrue⟩
    · intro heval x hx
      obtain ⟨answer, hanswer, heval⟩ := bind_eq_ok heval
      cases answer with
      | true => cases heval
      | false =>
        rw [hc.fails hanswer x hx]
        exact ihfails heval x hx

end Registry

namespace Condition.Existential

variable {c : Condition}

theorem decidedByOne (h : c.Existential) (clock : Clock) (value : Value) : Registry.DecidedByOne clock c value := by
  have hsingle : ∀ x ∈ value.elements, x.elements = [x] :=
    fun x hx => (value.isSingle_of_mem_elements x hx).elements
  induction h with
  | @compare op operand hop =>
    refine .of_anyPasses fun answer heval => ?_
    rw [Registry.evaluate_compare] at heval
    rw [← hop.anyPasses_of_holds heval]
    refine anyPasses_congr fun x hx => ?_
    rw [Registry.evaluate_compare, hsingle x hx]
  | find operand =>
    have hfind (v : Value) : (Registry.standard clock).evaluate (.nested .find operand) v =
        anyPasses ((Registry.standard clock).matchesOperand operand) v.elements := by
      rw [Registry.evaluate_find_eq, Registry.decided_standard]
    refine .of_anyPasses fun answer heval => ?_
    rw [← heval, hfind]
    refine anyPasses_congr fun x hx => ?_
    rw [hfind, hsingle x hx, anyPasses_singleton]
  | @any members hne hmembers ih =>
    obtain ⟨hholds, hfails⟩ := Registry.DecidedByOne.anyPasses ih
    simp only [← Registry.evaluate_any hne] at hholds hfails
    exact ⟨hholds, hfails⟩

/-- Values put together have the answer that they have when they are asked one after the other. -/
theorem eq_of_flatMap (h : c.Existential) {clock : Clock} {value : Value} {members : List Value}
    (hmembers : value.elements = members.flatMap Value.elements) {whole found : Bool}
    (hwhole : (Registry.standard clock).evaluate c value = .ok whole)
    (hfound : anyPasses (fun v => (Registry.standard clock).evaluate c v) members = .ok found) : found = whole := by
  have hdecided := h.decidedByOne clock
  cases found with
  | true =>
    obtain ⟨v, hv, htrue⟩ := exists_of_anyPasses hfound
    obtain ⟨x, hx, htrue⟩ := (hdecided v).holds htrue
    have hmem : x ∈ value.elements := by
      rw [hmembers]
      exact List.mem_flatMap.2 ⟨v, hv, hx⟩
    cases whole with
    | true => rfl
    | false => cases htrue.symm.trans ((hdecided value).fails hwhole x hmem)
  | false =>
    cases whole with
    | true =>
      obtain ⟨x, hx, htrue⟩ := (hdecided value).holds hwhole
      rw [hmembers] at hx
      obtain ⟨v, hv, hx⟩ := List.mem_flatMap.1 hx
      have hfalse := (hdecided v).fails (forall_of_anyPasses hfound v hv) x hx
      cases htrue.symm.trans hfalse
    | false => rfl

/-- The search of a collection for an element with a condition that asks for a value of a certain sort is that condition
on the path of the collection followed by the path in the element, wherever both have an answer; that for no such
element is the negation. -/
theorem find_eq_dotted (h : c.Existential) (clock : Clock) (item : Value) (outer inner : String) {dotted : Bool}
    (hdotted : (Registry.standard clock).matchesQuery (Query.single (Path.join outer inner) c) item = .ok dotted) :
    (∀ found, (Registry.standard clock).matchesQuery
      (Query.single outer (.find (Query.single inner c))) item = .ok found → found = dotted) ∧
    (∀ missed, (Registry.standard clock).matchesQuery
      (Query.single outer (.nfind (Query.single inner c))) item = .ok missed → missed = !dotted) := by
  have helements : (item.resolve (Path.join outer inner)).elements =
      ((item.resolve outer).elements.map fun x => x.resolve inner).flatMap Value.elements := by
    rw [Value.resolve, Path.parts_join, Value.elements_follow_append, List.flatMap_map]
    rfl
  have hsearch : ∀ found, anyPasses (fun x => (Registry.standard clock).evaluate c (x.resolve inner))
      (item.resolve outer).elements = .ok found → found = dotted := by
    intro found hfound
    rw [Registry.matchesQuery_single_eq] at hdotted
    exact h.eq_of_flatMap helements hdotted ((anyPasses_map _ _).trans hfound)
  constructor
  · intro found hfound
    simp only [Registry.matchesQuery_single_eq, Condition.find, Registry.evaluate_find] at hfound
    exact hsearch found hfound
  · intro missed hmissed
    simp only [Registry.matchesQuery_single_eq, Condition.nfind, Registry.evaluate_nfind] at hmissed
    have hfound := congrArg (Except.map (!·)) hmissed
    rw [map_map_not] at hfound
    rw [← hsearch (!missed) hfound, Bool.not_not]

/-- More than eight, x, or a whole number whose real part is at least nine. -/
def lateOrMarked : Condition :=
  .combine .any ([.within .gt (.int 8), .eq (.text "x"), .find [("real", .within .gte (.int 9))]].map .condition)

/-- Visits in lists of lists, with nulls, a number in place of a visit, and one in place of pages. -/
def visits : Value :=
  .object [("visits", .list [
    .object [("pages", .list [.object [("n", .int 3)], .tuple [.object [("n", .null)], .object [("n", .list [.int 9])]]])],
    .null, .int 7, .list [.object [("pages", .int 5)]]])]

theorem find_eq_dotted_visits : lateOrMarked.Existential ∧ ∃ found missed,
    (Registry.standard .atStart).matchesQuery (Query.single (Path.join "visits" "pages.n") lateOrMarked) visits =
      .ok true ∧
    (Registry.standard .atStart).matchesQuery
      (Query.single "visits" (.find (Query.single "pages.n" lateOrMarked))) visits = .ok found ∧
    (Registry.standard .atStart).matchesQuery
      (Query.single "visits" (.nfind (Query.single "pages.n" lateOrMarked))) visits = .ok missed ∧
    found = true ∧ missed = !true := by
  have hexistential : lateOrMarked.Existential := by
    refine .any (by simp) ?_
    simp only [List.forall_mem_cons, List.not_mem_nil, false_implies, implies_true, and_true]
    exact ⟨.compare trivial, .compare nofun, .find _⟩
  have houter : Path.parts "visits" = ["visits"] := rfl
  have hinner : Path.parts "pages.n" = ["pages", "n"] := rfl
  have hdotted : (Registry.standard .atStart).matchesQuery
      (Query.single (Path.join "visits" "pages.n") lateOrMarked) visits = .ok true := by
    rw [Registry.matchesQuery_single_eq, Value.resolve, Path.parts_join, houter, hinner]
    rfl
  have hsearch : anyPasses (fun x => (Registry.standard .atStart).matchesQuery (Query.single "pages.n" lateOrMarked) x)
      (visits.resolve "visits").elements = .ok true := by
    simp only [Registry.matchesQuery_single_eq, Value.resolve, houter, hinner]
    rfl
  have hfound : (Registry.standard .atStart).matchesQuery
      (Query.single "visits" (.find (Query.single "pages.n" lateOrMarked))) visits = .ok true := by
    rw [Registry.matchesQuery_single_eq, Condition.find, Registry.evaluate_find, hsearch]
  have hmissed : (Registry.standard .atStart).matchesQuery
      (Query.single "visits" (.nfind (Query.single "pages.n" lateOrMarked))) visits = .ok false := by
    rw [Registry.matchesQuery_single_eq, Condition.nfind, Registry.evaluate_nfind, hsearch]
    rfl
  obtain ⟨hfind, hnfind⟩ := hexistential.find_eq_dotted .atStart visits "visits" "pages.n" hdotted
  exact ⟨hexistential, true, false, hdotted, hfound, hmissed, hfind true hfound, hnfind false hmissed⟩

end Condition.Existential

end Winnow
