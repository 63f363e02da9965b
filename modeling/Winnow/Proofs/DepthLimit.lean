import Winnow.Proofs.Nesting

/-!
# The limit on depth

A translation counts the levels below a condition (`Condition.nest`): one for the members of a combinator, if it has
any, and one for the query of a membership, whether or not that asks for something. A filter is translated when none of
its conditions has more levels below it than the allowed depth, and otherwise the fault names the first depth beyond
that, wherever in the filter the deep condition stands and whatever else the filter asks for.
-/

namespace Winnow

namespace Condition

/-- The levels below a condition. -/
def nest (c : Condition) : Nat :=
  c.depth 1

theorem nest_compare (op : Comparison) (operand : Value) : (compare op operand).nest = 0 := rfl

/-- A combinator has one level more than the deepest of its members, and none without members. -/
theorem nest_combine (op : Combinator) (members : List Condition) :
    (combine op (members.map .condition)).nest = (members.map fun c => 1 + c.nest).foldr max 0 := by
  simp only [nest, depth]
  induction members with
  | nil => rfl
  | cons c rest ih =>
    rw [List.map_cons, depthMembers, depthMember, ih, Nat.add_comm]
    rfl

/-- A membership has one level more than the deepest condition of its query. -/
theorem nest_nested (op : Membership) (pairs : Query) :
    (nested op (.query pairs)).nest = 1 + (pairs.map fun p => p.2.nest).foldr max 0 := by
  simp only [nest, depth, depthOperand]
  induction pairs with
  | nil => rfl
  | cons p rest ih =>
    obtain ⟨field, c⟩ := p
    rw [depthPairs, ih, List.map_cons, List.foldr_cons, Nat.add_comm _ 1, Nat.add_max_add_left]

end Condition

namespace Translator

variable {t : Translator}

/-- The limit on depth is exact: a filter that can be written is translated when no condition of its queries has more
levels than allowed, and otherwise it is refused with the first depth beyond the allowed one. What else a filter asks
for, in front of a condition that is nested too deeply or behind it, changes nothing about the refusal. Only a relative
date that has no text leads to another fault. -/
theorem build_depth_exact (hrules : t.rules = Rule.every) (hdepth : 0 ≤ t.maxDepth) {f : Filter} (hf : f.IsFormed) :
    ((∃ body, (t.build f).result = .ok body) ↔ (∀ c ∈ f.conditions, (c.nest : Int) ≤ t.maxDepth) ∧ f.IsWritten) ∧
      ((∃ c ∈ f.conditions, t.maxDepth < c.nest) → f.IsWritten → fitsLimit (t.maxDepth + 1) = true →
        (t.build f).result = .error (.nestedTooDeep (t.maxDepth + 1) t.maxDepth)) ∧
      (∀ g : Filter, g.IsFormed → g.IsWritten → f.conditions ⊆ g.conditions → ∀ fault,
        (t.build f).result = .error fault → (t.build g).result = .error fault) ∧
      (¬f.IsWritten → (t.build f).result = .error .integerUnwritable ∨
        (∃ c ∈ f.conditions, t.maxDepth < c.nest) ∧
          (t.build f).result = .error (Fault.nestedTooDeep (t.maxDepth + 1) t.maxDepth).worded) := by
  have hbuild : ∀ g : Filter, g.IsFormed →
      (t.build g).Demands t.tooDeep (∀ c ∈ g.conditions, (c.nest : Int) ≤ t.maxDepth) g.IsWritten :=
    fun g hg => demands_build_formed hrules hg fun _ _ => hdepth
  refine ⟨(hbuild f hf).succeeds_iff, ?_, ?_, ?_⟩
  · rintro ⟨c, hc, hdeep⟩ hwritten hfits
    rw [(hbuild f hf).refused_of (fun h => Int.not_lt.2 (h c hc) hdeep) hwritten, tooDeep_eq hdepth hfits]
  · intro g hg hwritten hsubset fault hfault
    -- A fault of the first filter is that of a condition too deep, which the second filter has as well.
    rcases (hbuild f hf).fault_cases hfault with ⟨hdeep, rfl⟩ | ⟨hnot, -⟩
    · exact (hbuild g hg).refused_of (fun h => hdeep fun c hc => h c (hsubset hc)) hwritten
    · exact absurd (fun c hc => hwritten c (hsubset hc)) hnot
  · intro hnot
    cases hbuild f hf with
    | met _ _ hwritten _ => exact absurd hwritten hnot
    | refused hdeep hresult =>
      simp only [not_forall, Int.not_le] at hdeep
      obtain ⟨c, hc, hlt⟩ := hdeep
      exact .inr ⟨⟨c, hc, hlt⟩, hresult⟩
    | unwritten _ hresult => exact .inl hresult

/-- Visits with a tag that is given and has a collection with something in it. -/
def deepVisits : Condition :=
  .find [("page", .neq .null), ("tag", .combine .all ([.neq .null, .find []].map .condition))]

theorem nest_deepVisits : deepVisits.nest = 3 := by
  have htag : (Condition.combine .all ([.neq .null, .find []].map .condition)).nest = 2 := by
    rw [Condition.nest_combine, List.map_cons, Condition.neq, Condition.nest_compare, List.map_cons, Condition.find,
      Condition.nest_nested]
    rfl
  rw [deepVisits, Condition.find, Condition.nest_nested, List.map_cons, List.map_cons, htag]
  rfl

/-- Three levels are enough for the visits, two are not, and a statement in front does not help. -/
theorem build_depth_exact_deepVisits :
    (∃ body, (build { maxDepth := 3 } { statements := Filter.statementsOf [[[("visits", deepVisits)]]] }).result =
        .ok body) ∧
      (build { maxDepth := 2 } { statements := Filter.statementsOf [[[("visits", deepVisits)]]] }).result =
        .error (.nestedTooDeep 3 2) ∧
      (build { maxDepth := 2 }
          { statements := Filter.statementsOf [[[("tag", .neq .null)], []], [[("visits", deepVisits)]]] }).result =
        .error (.nestedTooDeep 3 2) := by
  have hshape : deepVisits.Has anyShape := by
    simp [deepVisits, Condition.find, Condition.neq, Condition.has_nested_iff, Condition.has_combine_iff,
      Condition.has_compare_iff, Query.Has, anyShape, -List.map_cons, -List.map_nil]
  have hwritten : deepVisits.Has Condition.writtenDaysShape := by
    simp [deepVisits, Condition.find, Condition.neq, Condition.writtenDays_nested_iff,
      Condition.writtenDays_combine_iff, Condition.writtenDays_compare_iff, Comparison.Writes, -List.map_cons, -List.map_nil]
  have hvisits : ({ statements := Filter.statementsOf [[[("visits", deepVisits)]]] } : Filter).IsFormed := by
    refine ⟨⟨_, rfl, ?_⟩, ⟨10, rfl⟩, rfl, rfl⟩
    simp only [Query.Has, List.forall_mem_singleton]
    exact ⟨trivial, hshape⟩
  have hboth : ({ statements := Filter.statementsOf [[[("tag", .neq .null)], []], [[("visits", deepVisits)]]] } :
      Filter).IsFormed := by
    refine ⟨⟨_, rfl, ?_⟩, ⟨10, rfl⟩, rfl, rfl⟩
    simp only [Query.Has, List.forall_mem_cons, List.not_mem_nil, false_implies, implies_true, and_true]
    exact ⟨⟨trivial, .compare trivial⟩, trivial, hshape⟩
  have hrefused := (build_depth_exact (t := { maxDepth := 2 }) rfl (by decide) hvisits).2.1
    ⟨deepVisits, .head _, by rw [nest_deepVisits]; decide⟩ (List.forall_mem_singleton.2 hwritten)
    (fitsLimit_of_lt (by decide))
  refine ⟨(build_depth_exact (t := { maxDepth := 3 }) rfl (by decide) hvisits).1.2
    ⟨List.forall_mem_singleton.2 ?_, List.forall_mem_singleton.2 hwritten⟩, hrefused, ?_⟩
  · rw [nest_deepVisits]
    decide
  · refine (build_depth_exact (t := { maxDepth := 2 }) rfl (by decide) hvisits).2.2.1 _ hboth ?_
      (fun c hc => .tail _ hc) _ hrefused
    exact List.forall_mem_cons.2 ⟨.compare trivial, List.forall_mem_singleton.2 hwritten⟩

end Translator

end Winnow
