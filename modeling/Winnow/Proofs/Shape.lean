import Mathlib.Data.List.Basic
import Winnow.Condition

/-!
# The shape of filters

A condition is built from comparisons by combinators and memberships. `Condition.Has` says that it is built so, with
parts of a given shape at every level, and comes with the induction that statements about such conditions use.
`Condition.depth` is the greatest depth at which anything in a condition stands, the condition itself being at depth
zero. The names in a sort are texts or null.
-/

namespace Winnow

/-- What the parts of a condition are like: the operands of its comparisons, the fields of its queries, and the members
of its combinators. -/
structure Shape where
  operand : Comparison → Value → Prop := fun _ _ => True
  field : String → Prop := (· ≠ "")
  member : Combinator → Condition → Prop := fun _ _ => True

/-- A condition whose members are conditions and whose nested operands are queries, with parts of a given shape. -/
inductive Condition.Has (s : Shape) : Condition → Prop where
  | compare {op : Comparison} {operand : Value} : s.operand op operand → Has s (.compare op operand)
  | combine {op : Combinator} {members : List Condition} :
      (∀ c ∈ members, s.member op c) → (∀ c ∈ members, Has s c) → Has s (.combine op (members.map .condition))
  | nested {op : Membership} {pairs : Query} :
      (∀ p ∈ pairs, s.field p.1) → (∀ p ∈ pairs, Has s p.2) → Has s (.nested op (.query pairs))

/-- A query whose fields and conditions are of a given shape. -/
def Query.Has (s : Shape) (q : Query) : Prop :=
  ∀ p ∈ q, s.field p.1 ∧ p.2.Has s

namespace Condition

variable {s : Shape}

theorem has_compare_iff {op : Comparison} {operand : Value} : (compare op operand).Has s ↔ s.operand op operand := by
  refine ⟨?_, .compare⟩
  intro h
  cases h with
  | compare h => exact h

theorem has_combine_iff {op : Combinator} {members : List Condition} :
    (combine op (members.map .condition)).Has s ↔ ∀ c ∈ members, s.member op c ∧ c.Has s := by
  refine ⟨?_, fun h => .combine (fun c hc => (h c hc).1) fun c hc => (h c hc).2⟩
  intro h
  generalize hvalues : members.map Value.condition = values at h
  cases h with
  | combine hshape hparts =>
    obtain rfl := List.map_injective_iff.2 (fun _ _ => Value.condition.inj) hvalues
    exact fun c hc => ⟨hshape c hc, hparts c hc⟩

theorem has_nested_iff {op : Membership} {pairs : Query} :
    (nested op (.query pairs)).Has s ↔ Query.Has s pairs := by
  refine ⟨?_, fun h => .nested (fun p hp => (h p hp).1) fun p hp => (h p hp).2⟩
  intro h
  cases h with
  | nested hfields hparts => exact fun p hp => ⟨hfields p hp, hparts p hp⟩

/-- A condition of two shapes is of any shape that asks for nothing else. -/
theorem Has.both {t u : Shape} {c : Condition} (hs : c.Has s) (ht : c.Has t)
    (hoperand : ∀ op v, s.operand op v → t.operand op v → u.operand op v)
    (hfield : ∀ field, s.field field → t.field field → u.field field)
    (hmember : ∀ op c, s.member op c → t.member op c → u.member op c) : c.Has u := by
  induction hs with
  | compare h => exact .compare (hoperand _ _ h (has_compare_iff.1 ht))
  | combine h _ ih =>
    have ht := has_combine_iff.1 ht
    exact .combine (fun c hc => hmember _ _ (h c hc) (ht c hc).1) fun c hc => ih c hc (ht c hc).2
  | nested h _ ih =>
    have ht := has_nested_iff.1 ht
    exact .nested (fun p hp => hfield _ (h p hp) (ht p hp).1) fun p hp => ih p hp (ht p hp).2

/-- A condition of a shape is of any shape that asks for no more. -/
theorem Has.mono {t : Shape} {c : Condition} (h : c.Has s) (hoperand : ∀ op v, s.operand op v → t.operand op v)
    (hfield : ∀ field, s.field field → t.field field) (hmember : ∀ op c, s.member op c → t.member op c) : c.Has t :=
  h.both h (fun op v hv _ => hoperand op v hv) (fun field hv _ => hfield field hv) fun op c hv _ => hmember op c hv

end Condition

/-! ## Depth -/

mutual

/-- The greatest depth in a condition; a query without conditions counts for `bare`. -/
def Condition.depth (bare : Nat) : Condition → Nat
  | .compare _ _ => 0
  | .combine _ members => depthMembers bare members
  | .nested _ operand => depthOperand bare operand
termination_by structural c => c

/-- The greatest depth in the members of a combinator, seen from the combinator. -/
def depthMembers (bare : Nat) : List Value → Nat
  | [] => 0
  | v :: rest => max (depthMember bare v + 1) (depthMembers bare rest)
termination_by structural members => members

/-- The greatest depth in a member of a combinator. -/
def depthMember (bare : Nat) : Value → Nat
  | .condition c => c.depth bare
  | _ => 0
termination_by structural v => v

/-- The greatest depth in the operand of a membership, seen from the membership. -/
def depthOperand (bare : Nat) : Value → Nat
  | .query pairs => depthPairs bare pairs
  | _ => 0
termination_by structural v => v

/-- The greatest depth in the conditions of a query, seen from outside it. -/
def depthPairs (bare : Nat) : List (String × Condition) → Nat
  | [] => bare
  | (_, c) :: rest => max (c.depth bare + 1) (depthPairs bare rest)
termination_by structural pairs => pairs

end

namespace Condition

theorem depth_combine_le {bare n : Nat} {op : Combinator} {members : List Condition} :
    (combine op (members.map .condition)).depth bare ≤ n ↔ ∀ c ∈ members, c.depth bare < n := by
  simp only [depth]
  induction members with
  | nil => simp [depthMembers]
  | cons c rest ih =>
    simp only [List.map_cons, depthMembers, depthMember, Nat.max_le, ih, List.forall_mem_cons]
    rfl

theorem depth_nested_le {bare n : Nat} {op : Membership} {pairs : Query} :
    (nested op (.query pairs)).depth bare ≤ n ↔ bare ≤ n ∧ ∀ p ∈ pairs, p.2.depth bare < n := by
  simp only [depth, depthOperand]
  induction pairs with
  | nil => simp [depthPairs]
  | cons p rest ih =>
    obtain ⟨field, c⟩ := p
    simp only [depthPairs, Nat.max_le, ih, List.forall_mem_cons, Nat.succ_le_iff]
    exact and_left_comm

/-- A member of a combinator is less deep than the combinator. -/
theorem depth_lt_of_mem {bare : Nat} (op : Combinator) {members : List Condition} {c : Condition} (h : c ∈ members) :
    c.depth bare < (combine op (members.map .condition)).depth bare :=
  depth_combine_le.1 (Nat.le_refl _) c h

/-- A condition of a query is less deep than the membership that asks for the query. -/
theorem depth_lt_of_mem_query {bare : Nat} (op : Membership) {pairs : Query} {p : String × Condition} (h : p ∈ pairs) :
    p.2.depth bare < (nested op (.query pairs)).depth bare :=
  (depth_nested_le.1 (Nat.le_refl _)).2 p h

theorem bare_le_depth (bare : Nat) (op : Membership) (pairs : Query) : bare ≤ (nested op (.query pairs)).depth bare :=
  (depth_nested_le.1 (Nat.le_refl _)).1

end Condition

/-! ## Sorts -/

namespace Value

/-- Whether a value is a name in a sort: a text or null. -/
def IsSortName : Value → Prop
  | .null | .text _ => True
  | _ => False

/-- A name in a sort that is given is a text. -/
theorem IsSortName.exists_text {v : Value} (h : v.IsSortName) (hgiven : v.isGiven = true) : ∃ s, v = .text s := by
  cases v with
  | text s => exact ⟨s, rfl⟩
  | null => cases hgiven
  | _ => exact absurd h id

/-- A name in a sort has a text. -/
theorem IsSortName.isSome_plainText {v : Value} (h : v.IsSortName) : v.plainText.isSome = true := by
  cases v with
  | text _ | null => rfl
  | _ => exact absurd h id

end Value

end Winnow
