import Winnow.Proofs.Entries
import Winnow.Proofs.Matching

/-!
# Registering operators

Calls that set and remove strategies leave each operator the strategy that was set last, unless it was removed since
(`Registry.get?_run`). A registry with some of the operators of another answers every question as the other does, or
fails for want of an operator (`Registry.IsPartOf.answer`): which operators are looked up depends on the answers so
far, and these are the same in both. So more operators never change an answer
(`Registry.answers_of_registrations`).
-/

namespace Winnow

namespace Registry

/-! ## Calls on a registry -/

/-- A call that sets or removes the strategy of an operator. -/
inductive Call where
  | register (op : Operator) (strategy : Strategy)
  | unregister (op : Operator)

/-- The operator that a call is about. -/
def Call.op : Call → Operator
  | register op _ => op
  | unregister op => op

/-- The registry after a call. -/
def call (r : Registry) : Call → Registry
  | .register op strategy => r.register op strategy
  | .unregister op => r.unregister op

/-- The registry after some calls. -/
def run (r : Registry) (calls : List Call) : Registry :=
  calls.foldl call r

/-- The strategy that some calls set for an operator, with no call about the operator behind the last that does. -/
def LastSet (calls : List Call) (op : Operator) (strategy : Strategy) : Prop :=
  ∃ before after, calls = before ++ .register op strategy :: after ∧ ∀ call ∈ after, call.op ≠ op

section Calls

variable (r : Registry) (op o : Operator) (strategy s : Strategy)

theorem lookup_put (entries : List (Operator × Strategy)) :
    (put op strategy entries).lookup o = if o = op then some strategy else entries.lookup o := by
  induction entries with
  | nil => rw [put, lookup_cons_eq_ite]
  | cons entry rest ih =>
    obtain ⟨first, t⟩ := entry
    rw [put]
    by_cases hfirst : first = op
    · by_cases ho : o = op <;> simp [lookup_cons_eq_ite, hfirst, ho]
    · by_cases ho : o = first
      · simp [hfirst, ho]
      · simp [lookup_cons_eq_ite, hfirst, ho, ih]

theorem lookup_filter_ne (entries : List (Operator × Strategy)) :
    (entries.filter fun entry => entry.1 != op).lookup o = if o = op then none else entries.lookup o := by
  induction entries with
  | nil => simp
  | cons entry rest ih =>
    obtain ⟨first, t⟩ := entry
    by_cases hfirst : first = op
    · subst hfirst
      rw [List.filter_cons_of_neg (by simp), ih, lookup_cons_eq_ite]
      by_cases ho : o = first <;> simp [ho]
    · by_cases ho : o = first
      · simp [hfirst, ho]
      · simp [lookup_cons_eq_ite, hfirst, ho, ih]

theorem get?_register : (r.register op strategy).get? o = if o = op then some strategy else r.get? o :=
  lookup_put op o strategy r.strategies

theorem get?_unregister : (r.unregister op).get? o = if o = op then none else r.get? o :=
  lookup_filter_ne op o r.strategies

variable {op s}

/-- A call sets the strategy of its operator, or leaves it without one, and leaves those of the others as they were. -/
theorem get?_call (c : Call) :
    (r.call c).get? op = some s ↔ c = .register op s ∨ (r.get? op = some s ∧ c.op ≠ op) := by
  cases c with
  | register o strategy =>
    rw [call, get?_register]
    by_cases ho : op = o
    · subst ho
      simp [Call.op]
    · simp [Call.op, ho, Ne.symm ho]
  | unregister o =>
    rw [call, get?_unregister]
    by_cases ho : op = o
    · subst ho
      simp [Call.op]
    · simp [Call.op, ho, Ne.symm ho]

theorem lastSet_cons (c : Call) (rest : List Call) :
    LastSet (c :: rest) op s ↔ LastSet rest op s ∨ (c = .register op s ∧ ∀ call ∈ rest, call.op ≠ op) := by
  constructor
  · rintro ⟨before, after, heq, hafter⟩
    cases before with
    | nil =>
      obtain ⟨rfl, rfl⟩ := List.cons.inj heq
      exact .inr ⟨rfl, hafter⟩
    | cons first before => exact .inl ⟨before, after, (List.cons.inj heq).2, hafter⟩
  · rintro (⟨before, after, rfl, hafter⟩ | ⟨rfl, hrest⟩)
    · exact ⟨c :: before, after, rfl, hafter⟩
    · exact ⟨[], rest, rfl, hrest⟩

/-- After some calls an operator has the strategy that they set last, or the one it had if none is about it. -/
theorem get?_run (calls : List Call) : (r.run calls).get? op = some s ↔
    LastSet calls op s ∨ (r.get? op = some s ∧ ∀ call ∈ calls, call.op ≠ op) := by
  induction calls generalizing r with
  | nil => simp [run, LastSet]
  | cons c rest ih =>
    have hrun : r.run (c :: rest) = (r.call c).run rest := rfl
    rw [hrun, ih, get?_call, lastSet_cons, List.forall_mem_cons, or_and_right, and_assoc, or_assoc]

theorem get?_run_unregister (ops : List Operator) :
    (r.run (ops.map .unregister)).get? op = if op ∈ ops then none else r.get? op := by
  induction ops generalizing r with
  | nil => rfl
  | cons o rest ih =>
    have hrun : r.run ((o :: rest).map .unregister) = (r.unregister o).run (rest.map .unregister) := rfl
    rw [hrun, ih, get?_unregister]
    by_cases ho : op = o <;> simp [ho]

theorem clock_run (calls : List Call) : (r.run calls).clock = r.clock := by
  induction calls generalizing r with
  | nil => rfl
  | cons c rest ih =>
    refine (ih (r.call c)).trans ?_
    cases c <;> rfl

end Calls

/-! ## Outcomes that differ by a missing operator -/

/-- An outcome is another one, or it is the fault of an operator that a registry does not have. -/
def YieldsOrLacks (r : Registry) (x y : Except Fault Bool) : Prop :=
  x = y ∨ ∃ op, r.get? op = none ∧ x = .error (.unregistered op)

/-- A registry has operators of another only, with the strategies that they have there, and the same clock. -/
structure IsPartOf (r r' : Registry) : Prop where
  clock : r.clock = r'.clock
  get? : ∀ op strategy, r.get? op = some strategy → r'.get? op = some strategy

namespace YieldsOrLacks

variable {r r' : Registry}

theorem refl (r : Registry) (x : Except Fault Bool) : r.YieldsOrLacks x x :=
  .inl rfl

theorem bind {x y : Except Fault Bool} {f g : Bool → Except Fault Bool} (hx : r.YieldsOrLacks x y)
    (hf : ∀ b, r.YieldsOrLacks (f b) (g b)) : r.YieldsOrLacks (x >>= f) (y >>= g) := by
  rcases hx with rfl | ⟨op, hop, rfl⟩
  · cases x with
    | error fault => exact .refl r _
    | ok b => exact hf b
  · exact .inr ⟨op, hop, rfl⟩

theorem map {x y : Except Fault Bool} (hx : r.YieldsOrLacks x y) (f : Bool → Bool) :
    r.YieldsOrLacks (x.map f) (y.map f) := by
  rcases hx with rfl | ⟨op, hop, rfl⟩
  · exact .refl r _
  · exact .inr ⟨op, hop, rfl⟩

theorem anyPasses {α : Type} {test test' : α → Except Fault Bool} (h : ∀ a, r.YieldsOrLacks (test a) (test' a))
    (items : List α) : r.YieldsOrLacks (anyPasses test items) (Winnow.anyPasses test' items) := by
  induction items with
  | nil => exact .refl r _
  | cons a rest ih =>
    refine (h a).bind fun b => ?_
    split
    · exact .refl r _
    · exact ih

theorem allPass {α : Type} {test test' : α → Except Fault Bool} (h : ∀ a, r.YieldsOrLacks (test a) (test' a))
    (items : List α) : r.YieldsOrLacks (allPass test items) (Winnow.allPass test' items) := by
  induction items with
  | nil => exact .refl r _
  | cons a rest ih =>
    refine (h a).bind fun b => ?_
    split
    · exact ih
    · exact .refl r _

theorem decided {x y : Except Fault Bool} (hx : r.YieldsOrLacks x y) (h : r.IsPartOf r') (op : Operator) :
    r.YieldsOrLacks (r.decided op x) (r'.decided op y) := by
  unfold Registry.decided
  cases hop : r.get? op with
  | none => exact .inr ⟨op, hop, rfl⟩
  | some strategy =>
    rw [h.get? op strategy hop]
    cases strategy with
    | builtIn => exact hx
    | constant answer => exact .refl r _

end YieldsOrLacks

/-! ## Conditions and queries -/

namespace IsPartOf

variable {r r' : Registry}

mutual

/-- A condition has the answer of the whole registry, unless an operator is missing in the part. -/
theorem evaluate (h : r.IsPartOf r') :
    (c : Condition) → (value : Value) → r.YieldsOrLacks (r.evaluate c value) (r'.evaluate c value)
  | .compare op operand, value => by
    rw [evaluate_compare_eq, evaluate_compare_eq, ← h.clock]
    exact (YieldsOrLacks.refl r _).decided h _
  | .combine .all members, value => by
    rw [evaluate_all_eq, evaluate_all_eq]
    exact (h.everyMember members value).decided h _
  | .combine .any members, value => by
    rw [evaluate_any_eq, evaluate_any_eq]
    refine YieldsOrLacks.decided ?_ h _
    split
    · exact .refl r _
    · exact h.someMember members value
  | .nested .find operand, value => by
    rw [evaluate_find_eq, evaluate_find_eq]
    exact (YieldsOrLacks.anyPasses (h.matchesOperand operand) _).decided h _
  | .nested .nfind operand, value => by
    rw [evaluate_nfind_eq, evaluate_nfind_eq]
    exact ((YieldsOrLacks.anyPasses (h.matchesOperand operand) _).map _).decided h _
termination_by structural c => c

theorem everyMember (h : r.IsPartOf r') :
    (members : List Value) → (value : Value) → r.YieldsOrLacks (r.everyMember members value) (r'.everyMember members value)
  | [], _ => .refl r _
  | member :: rest, value => by
    rw [Registry.everyMember, Registry.everyMember]
    refine (h.evaluateMember member value).bind fun b => ?_
    split
    · exact h.everyMember rest value
    · exact .refl r _
termination_by structural members => members

theorem someMember (h : r.IsPartOf r') :
    (members : List Value) → (value : Value) → r.YieldsOrLacks (r.someMember members value) (r'.someMember members value)
  | [], _ => .refl r _
  | member :: rest, value => by
    rw [Registry.someMember, Registry.someMember]
    refine (h.evaluateMember member value).bind fun b => ?_
    split
    · exact .refl r _
    · exact h.someMember rest value
termination_by structural members => members

theorem evaluateMember (h : r.IsPartOf r') :
    (member value : Value) → r.YieldsOrLacks (r.evaluateMember member value) (r'.evaluateMember member value)
  | .condition c, value => h.evaluate c value
  | .null, _ | .bool _, _ | .int _, _ | .float _, _ | .decimal _, _ | .text _, _ | .date _, _ | .datetime _, _
  | .time _, _ | .uuid _, _ | .symbol _ _ _, _ | .operator _, _ | .direction _, _ | .daysAgo _, _ | .list _, _
  | .tuple _, _ | .object _, _ | .record _, _ | .query _, _ => .refl r _
termination_by structural member => member

/-- A query has the answer of the whole registry, and so has what is spelled out in its place. -/
theorem matchesOperand (h : r.IsPartOf r') :
    (operand item : Value) → r.YieldsOrLacks (r.matchesOperand operand item) (r'.matchesOperand operand item)
  | .query pairs, item => h.matchesPairs pairs item
  | .list pairs, item | .tuple pairs, item => h.matchesSpelled pairs item
  | .null, _ | .bool _, _ | .int _, _ | .float _, _ | .decimal _, _ | .text _, _ | .date _, _ | .datetime _, _
  | .time _, _ | .uuid _, _ | .symbol _ _ _, _ | .operator _, _ | .direction _, _ | .daysAgo _, _ | .object _, _
  | .record _, _ | .condition _, _ => .refl r _
termination_by structural operand => operand

theorem matchesSpelled (h : r.IsPartOf r') :
    (pairs : List Value) → (item : Value) → r.YieldsOrLacks (r.matchesSpelled pairs item) (r'.matchesSpelled pairs item)
  | [], _ => .refl r _
  | pair :: rest, item => by
    rw [Registry.matchesSpelled, Registry.matchesSpelled]
    refine (h.matchesPair pair item).bind fun b => ?_
    split
    · exact h.matchesSpelled rest item
    · exact .refl r _
termination_by structural pairs => pairs

theorem matchesPair (h : r.IsPartOf r') :
    (pair item : Value) → r.YieldsOrLacks (r.matchesPair pair item) (r'.matchesPair pair item)
  | .list parts, item | .tuple parts, item => h.matchesParts parts item
  | .null, _ | .bool _, _ | .int _, _ | .float _, _ | .decimal _, _ | .text _, _ | .date _, _ | .datetime _, _
  | .time _, _ | .uuid _, _ | .symbol _ _ _, _ | .operator _, _ | .direction _, _ | .daysAgo _, _ | .object _, _
  | .record _, _ | .condition _, _ | .query _, _ => .refl r _
termination_by structural pair => pair

theorem matchesParts (h : r.IsPartOf r') :
    (parts : List Value) → (item : Value) → r.YieldsOrLacks (r.matchesParts parts item) (r'.matchesParts parts item)
  | [field, c], item => by
    rw [Registry.matchesParts, Registry.matchesParts]
    cases field.asText? with
    | none => exact .refl r _
    | some path => exact h.evaluateMember c (item.resolve path)
  | [], _ | [_], _ | _ :: _ :: _ :: _, _ => .refl r _
termination_by structural parts => parts

theorem matchesPairs (h : r.IsPartOf r') :
    (pairs : List (String × Condition)) → (item : Value) →
      r.YieldsOrLacks (r.matchesPairs pairs item) (r'.matchesPairs pairs item)
  | [], _ => .refl r _
  | (field, c) :: rest, item => by
    rw [Registry.matchesPairs, Registry.matchesPairs]
    refine (h.evaluate c (item.resolve field)).bind fun b => ?_
    split
    · exact h.matchesPairs rest item
    · exact .refl r _
termination_by structural pairs => pairs

end

theorem matchesStatements (h : r.IsPartOf r') (statements : List Statement) (item : Value) :
    r.YieldsOrLacks (r.matchesStatements statements item) (r'.matchesStatements statements item) := by
  rw [matchesStatements_eq, matchesStatements_eq]
  refine YieldsOrLacks.allPass (fun statement => ?_) statements
  rw [matchesStatement, matchesStatement, anyHolds_eq, anyHolds_eq]
  exact YieldsOrLacks.anyPasses (fun alternative => h.matchesOperand alternative item) statement

end IsPartOf

/-! ## Questions -/

/-- What a registry can be asked: whether a condition holds of a value, or a query or statements of an item. -/
inductive Question where
  | condition (c : Condition) (value : Value)
  | query (q : Query) (item : Value)
  | statements (statements : List Statement) (item : Value)

/-- The answer of a registry, or what keeps it from answering. -/
def answer (r : Registry) : Question → Except Fault Bool
  | .condition c value => r.evaluate c value
  | .query q item => r.matchesQuery q item
  | .statements statements item => r.matchesStatements statements item

theorem IsPartOf.answer {r r' : Registry} (h : r.IsPartOf r') (question : Question) :
    r.YieldsOrLacks (r.answer question) (r'.answer question) := by
  cases question with
  | condition c value => exact h.evaluate c value
  | query q item => exact h.matchesPairs q item
  | statements statements item => exact h.matchesStatements statements item

/-- The registry without some operators is a part of it. -/
theorem isPartOf_run_unregister (r : Registry) (ops : List Operator) : (r.run (ops.map .unregister)).IsPartOf r where
  clock := clock_run r _
  get? op strategy h := by
    rw [get?_run_unregister] at h
    split at h
    · cases h
    · exact h

/-- A registry is a part of itself with one more operator. -/
theorem isPartOf_register {r : Registry} {op : Operator} (h : r.get? op = none) (strategy : Strategy) :
    r.IsPartOf (r.register op strategy) where
  clock := rfl
  get? o s ho := by
    rw [get?_register]
    split
    · next heq =>
      rw [heq, h] at ho
      cases ho
    · exact ho

/-- Calls leave an operator the strategy set last, or the one it had if none is about it. Whatever a registry answers,
one with more operators answers too, and where it does not answer as that one, it fails for want of an operator. So
the standard registry without some operators gives the standard answer or fails for want of one of these. -/
theorem answers_of_registrations (r : Registry) :
    (∀ (calls : List Call) (op : Operator) (strategy : Strategy), (r.run calls).get? op = some strategy ↔
      LastSet calls op strategy ∨ (r.get? op = some strategy ∧ ∀ call ∈ calls, call.op ≠ op)) ∧
    (∀ r' : Registry, r.IsPartOf r' → ∀ question : Question,
      (∀ b, r.answer question = .ok b → r'.answer question = .ok b) ∧
      (r.answer question = r'.answer question ∨
        ∃ op, r.get? op = none ∧ r.answer question = .error (.unregistered op))) ∧
    (∀ (clock : Clock) (ops : List Operator) (question : Question),
      ((standard clock).run (ops.map .unregister)).answer question = (standard clock).answer question ∨
        ∃ op ∈ ops, ((standard clock).run (ops.map .unregister)).answer question = .error (.unregistered op)) := by
  refine ⟨fun calls op strategy => get?_run r calls, fun r' h question => ⟨fun b hb => ?_, h.answer question⟩,
    fun clock ops question => ?_⟩
  · rcases h.answer question with heq | ⟨op, -, hfault⟩
    · exact heq.symm.trans hb
    · cases hb.symm.trans hfault
  · rcases (isPartOf_run_unregister (standard clock) ops).answer question with heq | ⟨op, hop, hfault⟩
    · exact .inl heq
    · rw [get?_run_unregister, get?_standard] at hop
      split at hop
      · next hmem => exact .inr ⟨op, hmem, hfault⟩
      · cases hop

/-- The standard registry without alternatives, and with every text beginning with any other. -/
def withoutAny : Registry :=
  (standard .atStart).run [.unregister (.combinator .any), .register (.comparison .startsWith) (.constant true)]

/-- A number that is six and an alternative of nothing, or a name with a certain beginning. -/
def sixOrNamed : Question :=
  .statements [[.query [("n", .eq (.int 6)), ("n", .combine .any [])], .query [("name", .compare .startsWith (.text "z"))]]]
    (.object [("n", .int 5), ("name", .text "abc")])

theorem answers_of_registrations_withoutAny :
    withoutAny.get? (.comparison .startsWith) = some (.constant true) ∧
    withoutAny.answer sixOrNamed = .ok true ∧
    withoutAny.IsPartOf (withoutAny.register (.combinator .any) .builtIn) ∧
    (withoutAny.register (.combinator .any) .builtIn).answer sixOrNamed = .ok true := by
  have hpart : withoutAny.IsPartOf (withoutAny.register (.combinator .any) .builtIn) :=
    isPartOf_register rfl .builtIn
  refine ⟨?_, rfl, hpart, ?_⟩
  · refine ((answers_of_registrations (standard .atStart)).1 _ _ _).2 (.inl ?_)
    exact ⟨[.unregister (.combinator .any)], [], rfl, List.forall_mem_nil _⟩
  · exact ((answers_of_registrations withoutAny).2.1 _ hpart sixOrNamed).1 true rfl

end Registry

end Winnow
