import Winnow.Proofs.Faults
import Winnow.Proofs.Kinds
import Winnow.Proofs.Paging
import Winnow.Proofs.RoundTrip

/-!
# Dual conditions

Every operator but that of beginnings has a dual, and the dual of a condition asks the dual question about the same
operands: missing and present, equal and different, before a bound and from it on, some element and none, all members
and any. The standard registry answers the dual question with the negation, and where it has no answer to the one it has
none to the other, for the same reason (`Registry.evaluate_dual`). Two conditions are needed for that. A combinator
without members holds, whichever it is, so that no empty one may stand in the condition; and a field is on the one side
of a bound or on the other only when it has one value, which is comparable with the bound.
-/

namespace Winnow

/-! ## Duals -/

/-- The bound that exactly the values of the other side are within. -/
def Bound.dual : Bound → Bound
  | lt => gte
  | lte => gt
  | gt => lte
  | gte => lt

/-- The comparison that asks for the opposite; a beginning has none and stays. -/
def Comparison.dual : Comparison → Comparison
  | eq => neq
  | neq => eq
  | bound b => .bound b.dual
  | startsWith => startsWith

/-- The other combinator. -/
def Combinator.dual : Combinator → Combinator
  | all => any
  | any => all

/-- The other membership. -/
def Membership.dual : Membership → Membership
  | find => nfind
  | nfind => find

mutual

/-- The condition that asks for the opposite: the dual operator on the same operand, or on the duals of the members. -/
def Condition.dual : Condition → Condition
  | .compare op operand => .compare op.dual operand
  | .combine op members => .combine op.dual (dualMembers members)
  | .nested op operand => .nested op.dual operand
termination_by structural c => c

/-- The duals of the members of a combinator. -/
def dualMembers : List Value → List Value
  | [] => []
  | v :: rest => dualMember v :: dualMembers rest
termination_by structural members => members

/-- The dual of a member of a combinator. -/
def dualMember : Value → Value
  | .condition c => .condition c.dual
  | v => v
termination_by structural v => v

end

theorem Condition.dual_combine (op : Combinator) (members : List Condition) :
    (combine op (members.map .condition)).dual = combine op.dual ((members.map dual).map .condition) := by
  rw [dual]
  congr 1
  induction members with
  | nil => rfl
  | cons c rest ih => simp only [List.map_cons, dualMembers, dualMember, ih]

/-! ## Values on one side of a bound -/

/-- A value stands for a moment: a date, with or without a time, or the text of one, within the calendar or beyond. -/
def Value.IsDated (v : Value) : Prop :=
  v.toInstant ≠ .ok none

/-- A value is comparable with the operand of a bound: both are of one kind, or both stand for moments and one of them
is a date or a relative date. -/
inductive Value.ComparesWith (v : Value) : Value → Prop where
  | alike {k : Kind} {a b : k.Mark} {w : Value} : k.read v = some a → k.read w = some b → ComparesWith v w
  | dated {w : Value} : v.isTemporal = true ∨ w.isTemporal = true → v.IsDated → w.IsDated → ComparesWith v w
  | relative {days : Nat} : v.IsDated → ComparesWith v (.daysAgo days)

/-- A value and a limit are brought to a common form in which they have an order, unless that is a fault. -/
def Comparable.HasOrder (v limit : Value) : Prop :=
  ∀ form, of v limit = .ok form → ∃ pair o, form = some pair ∧ pair.order = .ok (some o)

namespace Comparable

variable {v w : Value}

/-- Values of one kind have the order of their marks. -/
theorem hasOrder_of_read {k : Kind} {a b : k.Mark} (hv : k.read v = some a) (hw : k.read w = some b) :
    HasOrder v w := by
  intro form hform
  obtain ⟨pair, hpair, -, horder⟩ := Kind.comparable_of_read hv hw
  rw [hpair] at hform
  cases hform
  exact ⟨pair, _, rfl, horder⟩

/-- Moments that are compared as instants have the order of these. -/
theorem hasOrder_of_isDated (htemporal : v.isTemporal = true ∨ w.isTemporal = true) (hv : v.IsDated) (hw : w.IsDated) :
    HasOrder v w := by
  intro form hform
  rw [of, if_pos (by simpa using htemporal)] at hform
  obtain ⟨left, hleft, hform⟩ := bind_eq_ok hform
  obtain ⟨right, hright, hform⟩ := bind_eq_ok hform
  cases left with
  | none => exact absurd hleft hv
  | some i =>
    cases right with
    | none => exact absurd hright hw
    | some j =>
      cases hform
      exact ⟨.instants i j, _, rfl, rfl⟩

end Comparable

/-- A value with an instant stands for a moment. -/
theorem Value.IsDated.of_toInstant {v : Value} {i : Instant} (h : v.toInstant = .ok (some i)) : v.IsDated := by
  rw [IsDated, h]
  simp

namespace RelativeDate

variable {clock : Clock} {operand limit : Value} {b : Bound}

/-- A bound and its dual are rounded alike. -/
theorem resolve_dual (clock : Clock) (b : Bound) (operand : Value) :
    resolve clock b.dual operand = resolve clock b operand := by
  cases b <;> rfl

/-- A relative date is resolved to an instant. -/
theorem exists_ofInstant_of_resolve {days : Nat} (h : resolve clock b (.daysAgo days) = .ok limit) :
    ∃ i, limit = .ofInstant i := by
  have hinstant : ∀ x : Except Fault Instant, x.map Value.ofInstant = .ok limit → ∃ i, limit = .ofInstant i := by
    intro x hx
    cases x with
    | error fault => cases hx
    | ok i => exact ⟨i, (Except.ok.inj hx).symm⟩
  cases b <;> exact hinstant _ h

/-- An operand of a bound that is no relative date is the limit itself. -/
theorem eq_of_resolve (hoperand : ∀ days, operand ≠ .daysAgo days) (h : resolve clock b operand = .ok limit) :
    limit = operand := by
  cases operand with
  | daysAgo days => exact absurd rfl (hoperand days)
  | _ => exact (Except.ok.inj h).symm

/-- A value that is comparable with the operand of a bound has an order with what the operand is resolved to. -/
theorem hasOrder_of_resolve {v : Value} (hv : v.ComparesWith operand) (h : resolve clock b operand = .ok limit) :
    Comparable.HasOrder v limit := by
  cases hv with
  | @alike k _ _ _ hread hread' =>
    have hplain : ∀ days, operand ≠ .daysAgo days := by
      rintro days rfl
      cases k <;> cases hread'
    rw [eq_of_resolve hplain h]
    exact Comparable.hasOrder_of_read hread hread'
  | dated htemporal hdated hdated' =>
    have hplain : ∀ days, operand ≠ .daysAgo days := by
      rintro days rfl
      exact hdated' rfl
    rw [eq_of_resolve hplain h]
    exact Comparable.hasOrder_of_isDated htemporal hdated hdated'
  | relative hdated =>
    obtain ⟨i, rfl⟩ := exists_ofInstant_of_resolve h
    exact Comparable.hasOrder_of_isDated (.inr rfl) hdated (.of_toInstant (Value.toInstant_ofInstant i))

end RelativeDate

/-! ## Negated answers -/

section Tests

variable {ε α : Type} (test : α → Except ε Bool) (items : List α)

/-- Some item passes the negated tests unless all pass the tests. -/
theorem anyPasses_not : anyPasses (fun a => (test a).map (!·)) items = (allPass test items).map (!·) := by
  induction items with
  | nil => rfl
  | cons a rest ih =>
    rw [anyPasses, allPass, ih]
    rcases test a with fault | (_ | _) <;> rfl

/-- All items pass the negated tests unless some passes the tests. -/
theorem allPass_not : allPass (fun a => (test a).map (!·)) items = (anyPasses test items).map (!·) := by
  induction items with
  | nil => rfl
  | cons a rest ih =>
    rw [allPass, anyPasses, ih]
    rcases test a with fault | (_ | _) <;> rfl

end Tests

/-- A pair in some order is within a bound or within its dual. -/
theorem Bound.admits_dual (b : Bound) (o : Ordering) : b.dual.admits (some o) = !b.admits (some o) := by
  cases b <;> cases o <;> rfl

namespace Comparison

variable {clock : Clock} {operand limit v : Value} {b : Bound}

/-- One value is within the dual of a bound when it is not within the bound. -/
theorem withinBound_dual (h : Comparable.HasOrder v limit) (b : Bound) :
    withinBound b.dual [v] limit = (withinBound b [v] limit).map (!·) := by
  cases hof : Comparable.of v limit with
  | error fault =>
    have hone (b : Bound) : withinBound b [v] limit = .error fault := by
      rw [withinBound, hof]
      rfl
    rw [hone, hone]
    rfl
  | ok form =>
    obtain ⟨pair, o, rfl, horder⟩ := h form hof
    have hone (b : Bound) : withinBound b [v] limit = .ok (b.admits (some o)) := by
      have hall : ∀ u ∈ [v], ∃ pair, Comparable.of u limit = .ok (some pair) ∧ pair.order = .ok (some o) :=
        List.forall_mem_singleton.2 ⟨pair, hof, horder⟩
      rw [withinBound_of b hall, List.any_cons, List.any_nil, Bool.or_false]
    rw [hone, hone, Bound.admits_dual, map_ok]

theorem holds_dual_bound {values : List Value} (hvalues : values = [v]) (hv : v.ComparesWith operand) (b : Bound) :
    (bound b.dual).holds clock values operand = ((bound b).holds clock values operand).map (!·) := by
  subst hvalues
  show (RelativeDate.resolve clock b.dual operand >>= withinBound b.dual [v]) =
    (RelativeDate.resolve clock b operand >>= withinBound b [v]).map (!·)
  rw [RelativeDate.resolve_dual]
  cases hlimit : RelativeDate.resolve clock b operand with
  | error fault => rfl
  | ok limit => exact withinBound_dual (RelativeDate.hasOrder_of_resolve hv hlimit) b

end Comparison

/-! ## Conditions -/

/-- A condition is answered by its dual on a field with some values: it asks for no beginnings, its bounds, outside of
elements, are for one value comparable with them, and no combinator in it is without members. -/
inductive Condition.HasDual (values : List Value) : Condition → Prop where
  | eq (operand : Value) : HasDual values (.eq operand)
  | neq (operand : Value) : HasDual values (.neq operand)
  | within (b : Bound) {v operand : Value} : values = [v] → v.ComparesWith operand → HasDual values (.within b operand)
  | combine (op : Combinator) {members : List Condition} : members ≠ [] → (∀ c ∈ members, HasDual values c) →
      HasDual values (.combine op (members.map .condition))
  | nested (op : Membership) (operand : Value) : HasDual values (.nested op operand)

namespace Registry

variable {clock : Clock} {value : Value} {c : Condition}

/-- The dual of a condition on a field has the negated answer, or the same fault. By induction on the condition: members
are negated one by one, and elements are asked for by the same query. -/
theorem evaluate_dual_eq (h : c.HasDual value.elements) :
    (standard clock).evaluate c.dual value = ((standard clock).evaluate c value).map (!·) := by
  induction h with
  | eq operand =>
    simp only [Condition.eq, Condition.dual, evaluate_compare]
    exact Comparison.holds_neq_eq_not clock value.elements operand
  | neq operand =>
    simp only [Condition.neq, Condition.dual, evaluate_compare]
    rw [Comparison.dual, Comparison.holds_neq_eq_not, map_map_not]
  | within b hvalues hv =>
    simp only [Condition.within, Condition.dual, evaluate_compare]
    exact Comparison.holds_dual_bound hvalues hv b
  | @combine op members hne _ ih =>
    have hne' : members.map Condition.dual ≠ [] := by simpa using hne
    rw [Condition.dual_combine]
    cases op with
    | all =>
      rw [Combinator.dual, evaluate_all, evaluate_any hne', ← anyPasses_not, anyPasses_map]
      exact anyPasses_congr ih
    | any =>
      rw [Combinator.dual, evaluate_all, evaluate_any hne, ← allPass_not, allPass_map]
      exact allPass_congr ih
  | nested op operand =>
    rw [Condition.dual]
    cases op with
    | find =>
      rw [Membership.dual, evaluate_find_eq, evaluate_nfind_eq, decided_standard, decided_standard]
    | nfind =>
      rw [Membership.dual, evaluate_find_eq, evaluate_nfind_eq, decided_standard, decided_standard, map_map_not]

end Registry

/-! ## Items -/

namespace Filter

variable {α : Type} {r : Registry} {view : α → Value} {items : List α}

/-- Where the items that match are told, every item is accepted or not. -/
theorem exists_accepts_of_matching {f : Filter} {found : List α} (h : f.matching r view items = .ok found) :
    ∃ accepted : α → Bool, ∀ x ∈ items, f.accepts r (view x) = .ok (accepted x) := by
  refine ⟨fun x => (f.accepts r (view x)).toOption.getD false, ?_⟩
  induction items generalizing found with
  | nil => simp
  | cons x rest ih =>
    rw [matching] at h
    obtain ⟨answer, hanswer, h⟩ := bind_eq_ok h
    obtain ⟨others, hothers, -⟩ := bind_eq_ok h
    rw [List.forall_mem_cons]
    refine ⟨?_, ih hothers⟩
    simp only [hanswer]
    rfl

/-- A filter of one condition accepts an item when the condition holds of what its field leads to. -/
theorem accepts_ofCondition (r : Registry) (field : String) (c : Condition) (item : Value) :
    (ofCondition field c).accepts r item = r.evaluate c (item.resolve field) := by
  rw [accepts, ofCondition, Registry.matchesStatements_statementsOf, allPass_singleton, anyPasses_singleton,
    Registry.matchesQuery_eq, allPass_singleton]

end Filter

/-- On a field that the dual of a condition answers, the dual has the negated answer, or the same fault. So a filter of
the condition and one of its dual part any items with such fields: each item is matched by the one that does not match
by the other. -/
theorem Registry.evaluate_dual (c : Condition) (clock : Clock) :
    (∀ value, c.HasDual value.elements →
      (standard clock).evaluate c.dual value = ((standard clock).evaluate c value).map (!·)) ∧
    ∀ {α : Type} (view : α → Value) (field : String) (items found : List α),
      (∀ x ∈ items, c.HasDual ((view x).resolve field).elements) →
      (Filter.ofCondition field c).matching (standard clock) view items = .ok found →
        ∃ matched : α → Bool, found = items.filter matched ∧
          (Filter.ofCondition field c.dual).matching (standard clock) view items =
            .ok (items.filter fun x => !matched x) := by
  refine ⟨fun value h => evaluate_dual_eq h, ?_⟩
  intro α view field items found h hfound
  obtain ⟨matched, hmatched⟩ := Filter.exists_accepts_of_matching hfound
  refine ⟨matched, ?_, Filter.matching_of_accepts fun x hx => ?_⟩
  · rw [Filter.matching_of_accepts hmatched] at hfound
    exact (Except.ok.inj hfound).symm
  · have hanswer := hmatched x hx
    rw [Filter.accepts_ofCondition] at hanswer ⊢
    rw [evaluate_dual_eq (h x hx), hanswer, map_ok]

/-- Seen in the last three days and before a morning, or not in a late year. -/
def notedLately : Condition :=
  .combine .any ([.combine .all ([.within .gte (.daysAgo 3), .within .lt (.text "2025-06-30T06:00Z")].map .condition),
    .nested .nfind (.query [("year", .within .gt (.int 2020))])].map .condition)

/-- An item seen at a moment. -/
def seenAt (moment : Value) : Value :=
  .object [("seen", moment)]

/-- A moment is comparable with what both bounds ask for. -/
theorem hasDual_notedLately {v : Value} (hv : v.IsDated) (hbound : v.ComparesWith (.text "2025-06-30T06:00Z")) :
    notedLately.HasDual [v] := by
  refine .combine .any (by simp) (List.forall_mem_cons.2 ⟨.combine .all (by simp) ?_, ?_⟩)
  · rw [List.forall_mem_cons, List.forall_mem_singleton]
    exact ⟨.within .gte rfl (.relative hv), .within .lt rfl hbound⟩
  · rw [List.forall_mem_singleton]
    exact .nested .nfind _

/-- A text of a moment, which the condition holds of, and a moment after both, which its dual holds of. -/
theorem Registry.evaluate_dual_notedLately :
    (standard .july).evaluate notedLately.dual (.text "2025-06-29T12:00Z") = .ok false ∧
      ∃ matched : Value → Bool,
        [seenAt (.text "2025-06-29T12:00Z")] =
          [seenAt (.text "2025-06-29T12:00Z"), seenAt (.datetime .july)].filter matched ∧
        (Filter.ofCondition "seen" notedLately.dual).matching (standard .july) id
            [seenAt (.text "2025-06-29T12:00Z"), seenAt (.datetime .july)] =
          .ok ([seenAt (.text "2025-06-29T12:00Z"), seenAt (.datetime .july)].filter fun x => !matched x) := by
  have htext : notedLately.HasDual [.text "2025-06-29T12:00Z"] :=
    hasDual_notedLately (.of_toInstant rfl) (.alike (k := .text) rfl rfl)
  have hmoment : notedLately.HasDual [.datetime .july] :=
    hasDual_notedLately (.of_toInstant rfl) (.dated (.inl rfl) (.of_toInstant rfl) (.of_toInstant rfl))
  obtain ⟨hanswer, hparts⟩ := evaluate_dual notedLately .july
  refine ⟨hanswer _ htext, hparts id "seen" _ _ ?_ rfl⟩
  rw [List.forall_mem_cons, List.forall_mem_singleton]
  exact ⟨htext, hmoment⟩

end Winnow
