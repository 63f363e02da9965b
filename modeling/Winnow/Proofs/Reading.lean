import Mathlib.Data.List.Forall2
import Winnow.Proofs.Translation

/-!
# Reading clauses

Whether a document matches clauses, by a reading of the clauses that are not made of others (`Clause.sat`), and what
fragments demand under it. Merging is conjunction (`holds_merge`). The alternatives that a fragment becomes in a
disjunction hold together with the fragment, except for a fragment of several clauses: those become an alternative each,
and one of them is enough (`Fragment.splits`).
-/

namespace Winnow

/-- Whether a fragment holds: all its clauses that must match do, and none of those that must not. -/
def Fragment.holds (holds : Clause → Bool) (f : Fragment Clause) : Bool :=
  (f.filter.getD []).all holds && !(f.mustNot.getD []).any holds

/-- A reading of clauses: combined clauses hold as their parts do. -/
structure IsReading (holds : Clause → Bool) : Prop where
  bool (f : Fragment Clause) : holds (.bool f) = f.holds holds
  best (queries : List Clause) : holds (.best queries) = queries.any holds
  anyOf (should : List Clause) : holds (.anyOf should) = should.any holds

namespace Clause

variable (leaf : Clause → Bool)

mutual

/-- Whether a clause holds by a reading of the clauses that are not combined of others. -/
def sat : Clause → Bool
  | best queries => satSome queries
  | bool fragment => satFragment fragment
  | anyOf should => satSome should
  | c => leaf c
termination_by structural c => c

/-- Whether a fragment holds. -/
def satFragment : Fragment Clause → Bool
  | ⟨filter, mustNot⟩ => satEvery filter && satNone mustNot
termination_by structural f => f

/-- Whether all of the clauses that must match do. -/
def satEvery : Option (List Clause) → Bool
  | none => true
  | some clauses => satAll clauses
termination_by structural clauses => clauses

/-- Whether none of the clauses that must not match does. -/
def satNone : Option (List Clause) → Bool
  | none => true
  | some clauses => !satSome clauses
termination_by structural clauses => clauses

/-- Whether all of some clauses hold. -/
def satAll : List Clause → Bool
  | [] => true
  | c :: rest => sat c && satAll rest
termination_by structural clauses => clauses

/-- Whether some of some clauses hold. -/
def satSome : List Clause → Bool
  | [] => false
  | c :: rest => sat c || satSome rest
termination_by structural clauses => clauses

end

theorem satAll_eq (clauses : List Clause) : satAll leaf clauses = clauses.all (sat leaf) := by
  induction clauses with
  | nil => rfl
  | cons c rest ih => rw [satAll, ih, List.all_cons]

theorem satSome_eq (clauses : List Clause) : satSome leaf clauses = clauses.any (sat leaf) := by
  induction clauses with
  | nil => rfl
  | cons c rest ih => rw [satSome, ih, List.any_cons]

/-- Any reading of the clauses that are not combined of others makes a reading of all clauses. -/
theorem isReading_sat : IsReading (sat leaf) where
  bool f := by
    obtain ⟨filter, mustNot⟩ := f
    rw [sat, satFragment, Fragment.holds]
    congr 1
    · cases filter with
      | none => rfl
      | some clauses => exact satAll_eq leaf clauses
    · cases mustNot with
      | none => rfl
      | some clauses => exact congrArg (!·) (satSome_eq leaf clauses)
  best queries := by rw [sat, satSome_eq]
  anyOf should := by rw [sat, satSome_eq]

end Clause

namespace Fragment

variable {holds : Clause → Bool}

/-- Fragments merged hold when both do. -/
@[simp] theorem holds_merge (f g : Fragment Clause) : (f.merge g).holds holds = (f.holds holds && g.holds holds) := by
  simp only [Fragment.holds, merge, getD_mergeLists, List.all_append, List.any_append, Bool.not_or]
  ac_rfl

theorem holds_foldl_merge (fragments : List (Fragment Clause)) (before : Fragment Clause) :
    (fragments.foldl merge before).holds holds = (before.holds holds && fragments.all fun f => f.holds holds) := by
  induction fragments generalizing before with
  | nil => simp
  | cons f rest ih => rw [List.foldl_cons, ih, holds_merge, List.all_cons, Bool.and_assoc]

/-- Fragments merged hold when all do. -/
@[simp] theorem holds_mergeAll (fragments : List (Fragment Clause)) :
    (mergeAll fragments).holds holds = fragments.all fun f => f.holds holds := by
  rw [mergeAll, holds_foldl_merge]
  rfl

@[simp] theorem holds_must (c : Clause) : (must c).holds holds = holds c := by
  simp [must, Fragment.holds]

@[simp] theorem holds_exclude (c : Clause) : (exclude c).holds holds = !holds c := by
  simp [exclude, Fragment.holds]

/-- Whether a fragment becomes several alternatives: it has several clauses, all of them to be matched. -/
def splits : Fragment Clause → Bool
  | ⟨some (_ :: _ :: _), none⟩ => true
  | _ => false

/-- The alternatives that a fragment becomes: where it splits one of its clauses is enough, else it must hold. -/
theorem any_alternatives (hr : IsReading holds) (f : Fragment Clause) :
    f.alternatives.any holds = if f.splits then (f.filter.getD []).any holds else f.holds holds := by
  unfold alternatives
  split
  · next clause clauses =>
    cases clauses with
    | nil => simp [splits, Fragment.holds]
    | cons _ _ => rfl
  · next hother =>
    have hwhole : f.splits = false := by
      unfold splits
      split
      · exact absurd rfl (hother _ _)
      · rfl
    simp [hwhole, hr.bool]

/-- A fragment that holds has an alternative that does. -/
theorem any_alternatives_of_holds (hr : IsReading holds) {f : Fragment Clause} (h : f.holds holds = true) :
    f.alternatives.any holds = true := by
  rw [any_alternatives hr]
  split
  · next hs =>
    unfold splits at hs
    split at hs
    · next c d rest =>
      simp only [Fragment.holds, Option.getD_some, List.all_cons, Bool.and_eq_true] at h
      simp [h.1.1]
    · cases hs
  · exact h

end Fragment

/-! ## Disjunctions -/

namespace Condition

variable {m : FieldMap} {field : String}

/-- The fragment of a comparison is one clause. -/
theorem splits_comparison (op : Comparison) (field : String) (operand : Value) :
    (op.fragment field operand).splits = false := by
  cases op with
  | eq | neq | startsWith => cases operand <;> rfl
  | bound b =>
    rcases Comparison.translate_eq (.bound b) field operand with ⟨-, htranslate⟩ | ⟨-, htranslate⟩
    · obtain ⟨limit, -, hlimit⟩ := Option.map_eq_some_iff.1 htranslate
      rw [← hlimit]
      rfl
    · rw [Comparison.fragment, htranslate]
      rfl

/-- Only the fragment of a conjunction splits. -/
theorem splits_fragment {c : Condition} (h : c.op ≠ .combinator .all) : (c.fragment m field).splits = false := by
  match c with
  | .compare op operand => exact splits_comparison op field operand
  | .combine .all members => exact absurd rfl h
  | .combine .any members =>
    rw [fragment]
    split <;> rfl
  | .nested .find operand => rfl
  | .nested .nfind operand => rfl

/-- The fragment of a disjunction holds when an alternative of one of its members does. -/
theorem holds_any {holds : Clause → Bool} (hr : IsReading holds) {members : List Condition} (hne : members ≠ []) :
    ((combine .any (members.map .condition)).fragment m field).holds holds =
      (members.map (fragment m field)).any fun f => f.alternatives.any holds := by
  have hempty : ¬members.isEmpty = true := by simpa using hne
  rw [fragment_any, if_neg hempty, Fragment.holds_must, hr.best, List.any_flatMap]

end Condition

namespace Fragment

variable {holds : Clause → Bool}

/-- Some alternative of some fragments holds when one of the fragments does, or a clause of one that splits. -/
theorem any_alternatives_iff (hr : IsReading holds) (parts : List (Fragment Clause)) :
    (parts.any fun f => f.alternatives.any holds) = true ↔ (∃ part ∈ parts, part.holds holds = true) ∨
      ∃ part ∈ parts, part.splits = true ∧ ∃ clause ∈ part.filter.getD [], holds clause = true := by
  rw [List.any_eq_true]
  constructor
  · rintro ⟨part, hpart, halternative⟩
    rw [any_alternatives hr] at halternative
    by_cases hs : part.splits = true
    · rw [if_pos hs, List.any_eq_true] at halternative
      exact .inr ⟨part, hpart, hs, halternative⟩
    · rw [if_neg hs] at halternative
      exact .inl ⟨part, hpart, halternative⟩
  · rintro (⟨part, hpart, hholds⟩ | ⟨part, hpart, hs, hclause⟩)
    · exact ⟨part, hpart, any_alternatives_of_holds hr hholds⟩
    · refine ⟨part, hpart, ?_⟩
      rw [any_alternatives hr, if_pos hs, List.any_eq_true]
      exact hclause

end Fragment

namespace Translator

variable {t : Translator}

/-- A disjunction is within the allowed depth when its members are, one level further in. -/
theorem reaches_combine {op : Combinator} {members : List Condition} {depth : Nat}
    (hdepth : ∀ c ∈ members, ((depth + 1 + c.depth 1 : Nat) : Int) ≤ t.maxDepth) :
    t.Reaches depth (.combine op (members.map .condition)) := by
  cases members with
  | nil => exact .inl rfl
  | cons c rest =>
    have hroom := hdepth c (.head _)
    have hle : (Condition.combine op ((c :: rest).map .condition)).depth 1 ≤ (t.maxDepth - depth).toNat := by
      refine Condition.depth_combine_le.2 ?_
      intro d hd
      have := hdepth d hd
      omega
    exact .inr (by omega)

/-- A disjunction is translated exactly when it can be written. Where it is, so is each of its members on its own, and
its fragment holds when that of some member does, unless only clauses of fragments that split do: such a fragment counts
as soon as one of its clauses holds. Only the fragments of conjunctions split. -/
theorem translateOn_any_holds_iff (hrules : t.rules = Rule.every) {members : List Condition} (hne : members ≠ [])
    (hshape : ∀ c ∈ members, c.Has { field := fun _ => True }) {depth : Nat}
    (hdepth : ∀ c ∈ members, ((depth + 1 + c.depth 1 : Nat) : Int) ≤ t.maxDepth) (field : String) :
    ((∃ whole, (t.translateOn field depth (.combine .any (members.map .condition))).result = .ok whole) ↔
        ∀ c ∈ members, c.Has Condition.writtenDaysShape) ∧
      ∀ whole, (t.translateOn field depth (.combine .any (members.map .condition))).result = .ok whole →
        ∃ parts, members.Forall₂ (fun c part => (t.translateOn field (depth + 1) c).result = .ok part) parts ∧
          (∀ leaf, ((whole.holds (Clause.sat leaf) = true ↔ ∃ part ∈ parts, Clause.sat leaf (.bool part) = true) ↔
            ((∃ part ∈ parts, part.splits = true ∧ ∃ clause ∈ part.filter.getD [], Clause.sat leaf clause = true) →
              ∃ part ∈ parts, Clause.sat leaf (.bool part) = true))) ∧
          ((∀ c ∈ members, c.op ≠ .combinator .all) → ∀ part ∈ parts, part.splits = false) := by
  have hwhole : (Condition.combine .any (members.map .condition)).Has { field := fun _ => True } :=
    .combine (fun _ _ => trivial) hshape
  have hyields := yields_translateOn (t := t) hwhole field depth
  rw [Condition.writtenDays_combine_iff] at hyields
  refine ⟨⟨?_, ?_⟩, ?_⟩
  · rintro ⟨whole, hwhole⟩
    exact (hyields whole hwhole).2
  · intro hwritten
    exact ⟨_, result_translateOn hrules (Condition.writtenDays_combine_iff.2 hwritten) (reaches_combine hdepth) field⟩
  intro whole hwhole
  obtain ⟨hfragment, hwritten⟩ := hyields whole hwhole
  refine ⟨members.map (Condition.fragment t.fieldMap field), ?_, fun leaf => ?_, fun hop part hpart => ?_⟩
  · rw [List.forall₂_map_right_iff, List.forall₂_same]
    exact fun c hc => result_translateOn hrules (hwritten c hc) (.inr (hdepth c hc)) field
  · have hr := Clause.isReading_sat leaf
    have hsome := Fragment.any_alternatives_iff hr (members.map (Condition.fragment t.fieldMap field))
    rw [hfragment]
    simp only [Condition.holds_any hr hne, hr.bool]
    rw [hsome]
    exact or_iff_left_iff_imp
  · obtain ⟨c, hc, rfl⟩ := List.mem_map.1 hpart
    exact Condition.splits_fragment (hop c hc)

/-- A number between two others, or another number. -/
def betweenOr (low high other : Int) : List Condition :=
  [.combine .all ([.within .gt (.int low), .within .lt (.int high)].map .condition), .eq (.int other)]

theorem has_betweenOr {low high other : Int} : ∀ c ∈ betweenOr low high other, c.Has { field := fun _ => True } := by
  simp only [betweenOr, List.forall_mem_cons, List.not_mem_nil, false_implies, implies_true, and_true]
  refine ⟨Condition.has_combine_iff.2 ?_, .compare trivial⟩
  simp only [List.forall_mem_cons, List.not_mem_nil, false_implies, implies_true, and_true]
  exact ⟨⟨trivial, .compare trivial⟩, ⟨trivial, .compare trivial⟩⟩

theorem translateOn_any_holds_iff_between :
    ∃ whole parts,
      (translateOn {} "f" 0 (.combine .any ((betweenOr 1 5 9).map .condition))).result = .ok whole ∧
      (betweenOr 1 5 9).Forall₂ (fun c part => (translateOn {} "f" 1 c).result = .ok part) parts ∧
      (∀ leaf, ((whole.holds (Clause.sat leaf) = true ↔ ∃ part ∈ parts, Clause.sat leaf (.bool part) = true) ↔
        ((∃ part ∈ parts, part.splits = true ∧ ∃ clause ∈ part.filter.getD [], Clause.sat leaf clause = true) →
          ∃ part ∈ parts, Clause.sat leaf (.bool part) = true))) ∧
      ((∀ c ∈ betweenOr 1 5 9, c.op ≠ .combinator .all) → ∀ part ∈ parts, part.splits = false) := by
  have hdepth : ∀ c ∈ betweenOr 1 5 9, ((0 + 1 + c.depth 1 : Nat) : Int) ≤ 32 := by decide
  obtain ⟨htranslated, hholds⟩ :=
    translateOn_any_holds_iff (t := {}) rfl (by decide) has_betweenOr hdepth "f"
  have hwritten : ∀ c ∈ betweenOr 1 5 9, c.Has Condition.writtenDaysShape := by
    simp only [betweenOr, List.forall_mem_cons, List.not_mem_nil, false_implies, implies_true, and_true]
    refine ⟨Condition.writtenDays_combine_iff.2 ?_, .compare trivial⟩
    simp only [List.forall_mem_cons, List.not_mem_nil, false_implies, implies_true, and_true]
    exact ⟨.compare trivial, .compare trivial⟩
  obtain ⟨whole, hwhole⟩ := htranslated.2 hwritten
  obtain ⟨parts, hparts⟩ := hholds whole hwhole
  exact ⟨whole, parts, hwhole, hparts⟩

/-- A number above the bound from below alone is enough for the fragment of the disjunction, though no member holds. -/
theorem translateOn_any_holds_between_above :
    ∃ whole parts leaf,
      (translateOn {} "f" 0 (.combine .any ((betweenOr 1 5 9).map .condition))).result = .ok whole ∧
      (betweenOr 1 5 9).Forall₂ (fun c part => (translateOn {} "f" 1 c).result = .ok part) parts ∧
      whole.holds (Clause.sat leaf) = true ∧ ¬∃ part ∈ parts, Clause.sat leaf (.bool part) = true := by
  refine ⟨_, [_, _], fun clause => match clause with | .range _ .gt _ => true | _ => false, rfl,
    .cons rfl (.cons rfl .nil), rfl, ?_⟩
  simp only [List.mem_cons, List.not_mem_nil, or_false, exists_eq_or_imp, exists_eq_left, not_or]
  exact ⟨by decide, by decide⟩

end Translator

end Winnow
