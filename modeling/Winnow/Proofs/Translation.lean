import Winnow.Proofs.Outcome
import Winnow.Proofs.Shape
import Winnow.Search.Body

/-!
# What conditions are translated to

Statements about `Translator.translateOn` and `Translator.translateStatements`. `Condition.fragment` is the fragment of
a condition without the questions that are recorded, the rules and the depth; a translation with every rule ends with it
when the nesting is within the allowed depth (`Translator.result_translateOn`).
-/

namespace Winnow

/-! ## Names -/

namespace Path

/-- The path of a field inside another is not empty. -/
theorem join_ne_empty (outer inner : String) : join outer inner ≠ "" := by
  intro h
  have hchars := congrArg String.toList h
  simp [join] at hchars

/-- The path of a field inside a collection has that of the collection in front. -/
theorem inside_eq_join {outer : String} (h : outer ≠ "") (inner : String) : inside outer inner = join outer inner := by
  rw [inside, if_neg (by simpa using h)]

end Path

namespace FieldMap

/-- Under its own name, every field keeps it. -/
theorem nameOf_identity (field : String) : identity.nameOf field = field := by
  rw [nameOf, identity]
  exact ite_self _

/-- The name of a field is not empty. -/
theorem nameOf_ne_empty {m : FieldMap} {field : String} (h : field ≠ "") : m.nameOf field ≠ "" := by
  unfold nameOf
  split
  · next name _ =>
    by_cases hempty : name.isEmpty = true
    · rwa [if_pos hempty]
    · rw [if_neg hempty]
      simpa using hempty
  · exact h

end FieldMap

/-! ## Fragments -/

/-- Of two lists that may be absent, the clauses of both are there. -/
theorem Fragment.getD_mergeLists {α : Type} (xs ys : Option (List α)) :
    (mergeLists xs ys).getD [] = xs.getD [] ++ ys.getD [] := by
  rcases xs with _ | xs <;> rcases ys with _ | ys <;> simp [mergeLists]

/-- What the empty fragment has, and two fragments together when each has it, fragments together have when each does. -/
theorem Fragment.mergeAll_induction {α : Type} {P : Fragment α → Prop} (hempty : P {})
    (hmerge : ∀ f g, P f → P g → P (f.merge g)) {fragments : List (Fragment α)} (h : ∀ f ∈ fragments, P f) :
    P (mergeAll fragments) :=
  List.foldlRecOn fragments Fragment.merge hempty fun before hbefore f hf => hmerge before f hbefore (h f hf)

/-! ## Operands that can be written -/

namespace Comparison

/-- Whether the operand of a comparison can be written in a search body: the number of days of a bound has a text. -/
def Writes : Comparison → Value → Prop
  | .bound _, .daysAgo days => fitsLimit days = true
  | _, _ => True

/-- The fragment of a comparison on an indexed field, the empty one when its operand cannot be written. -/
def fragment (op : Comparison) (field : String) (operand : Value) : Fragment Clause :=
  (op.translate field operand).getD {}

/-- A comparison is translated exactly when its operand can be written. -/
theorem translate_eq (op : Comparison) (field : String) (operand : Value) :
    op.Writes operand ∧ op.translate field operand = some (op.fragment field operand) ∨
      ¬op.Writes operand ∧ op.translate field operand = none := by
  unfold fragment
  cases op with
  | eq | neq | startsWith => cases operand <;> exact .inl ⟨trivial, rfl⟩
  | bound b =>
    cases operand with
    | daysAgo days =>
      by_cases hfits : fitsLimit days = true
      · refine .inl ⟨hfits, ?_⟩
        simp [translate, rangeOperand, RelativeDate.dateMath, writeInt?_of_fitsLimit hfits]
      · refine .inr ⟨hfits, ?_⟩
        simp [translate, rangeOperand, RelativeDate.dateMath, writeInt?, hfits]
    | _ => exact .inl ⟨trivial, rfl⟩

theorem translate_of_writes {op : Comparison} {operand : Value} (h : op.Writes operand) (field : String) :
    op.translate field operand = some (op.fragment field operand) := by
  rcases translate_eq op field operand with ⟨-, htranslate⟩ | ⟨hnot, -⟩
  · exact htranslate
  · exact absurd h hnot

/-- The operand of a bound that can be written is one value in the search, on every field. -/
theorem exists_rangeOperand {b : Bound} {operand : Value} (h : (bound b).Writes operand) :
    ∃ limit, rangeOperand operand = some limit ∧
      ∀ field, (bound b).fragment field operand = .must (.range field b limit) := by
  obtain ⟨limit, hlimit, -⟩ := Option.map_eq_some_iff.1 (translate_of_writes h "")
  refine ⟨limit, hlimit, fun field => ?_⟩
  rw [fragment, translate, hlimit]
  rfl

end Comparison

namespace Condition

/-- The shape of conditions that can be written in a search body. -/
def writtenDaysShape : Shape where
  operand := Comparison.Writes
  field := fun _ => True

theorem writtenDays_compare_iff {op : Comparison} {operand : Value} :
    (compare op operand).Has writtenDaysShape ↔ op.Writes operand :=
  has_compare_iff

theorem writtenDays_combine_iff {op : Combinator} {members : List Condition} :
    (combine op (members.map .condition)).Has writtenDaysShape ↔ ∀ c ∈ members, c.Has writtenDaysShape :=
  has_combine_iff.trans (forall₂_congr fun _ _ => and_iff_right trivial)

theorem writtenDays_nested_iff {op : Membership} {pairs : Query} :
    (nested op (.query pairs)).Has writtenDaysShape ↔ ∀ p ∈ pairs, p.2.Has writtenDaysShape :=
  has_nested_iff.trans (forall₂_congr fun _ _ => and_iff_right trivial)

end Condition

mutual

/-- The fragment of a condition on an indexed field. -/
def Condition.fragment (m : FieldMap) (field : String) : Condition → Fragment Clause
  | .compare op operand => op.fragment field operand
  | .combine .all members => .mergeAll (memberFragments m field members)
  | .combine .any members =>
    if members.isEmpty then { filter := some [] }
    else .must (.best ((memberFragments m field members).flatMap Fragment.alternatives))
  | .nested .find operand => .must (.nested field (operandFragment m field operand))
  | .nested .nfind operand => .exclude (.nested field (operandFragment m field operand))
termination_by structural c => c

/-- The fragments of the members of a combinator. -/
def memberFragments (m : FieldMap) (field : String) : List Value → List (Fragment Clause)
  | [] => []
  | v :: rest => memberFragment m field v :: memberFragments m field rest
termination_by structural members => members

/-- The fragment of a member of a combinator. -/
def memberFragment (m : FieldMap) (field : String) : Value → Fragment Clause
  | .condition c => c.fragment m field
  | _ => {}
termination_by structural v => v

/-- The fragment of a query on the elements of a collection. -/
def operandFragment (m : FieldMap) (path : String) : Value → Fragment Clause
  | .query pairs => .mergeAll (pairFragments m path pairs)
  | _ => {}
termination_by structural v => v

/-- The fragments of the conditions of a query. -/
def pairFragments (m : FieldMap) (path : String) : List (String × Condition) → List (Fragment Clause)
  | [] => []
  | (field, c) :: rest => c.fragment m (m.nameOf (Path.inside path field)) :: pairFragments m path rest
termination_by structural pairs => pairs

end

/-- The fragment of a query on the fields under a path. -/
def Query.fragment (m : FieldMap) (path : String) (q : Query) : Fragment Clause :=
  .mergeAll (q.map fun p => p.2.fragment m (m.nameOf (Path.inside path p.1)))

/-- The clause that asks for all of some clauses. -/
def Clause.every : List Clause → Clause
  | [clause] => clause
  | clauses => .bool { filter := some clauses }

theorem memberFragments_map (m : FieldMap) (field : String) (members : List Condition) :
    memberFragments m field (members.map .condition) = members.map (Condition.fragment m field) := by
  induction members with
  | nil => rfl
  | cons c rest ih =>
    rw [List.map_cons, memberFragments, ih]
    rfl

theorem operandFragment_query (m : FieldMap) (path : String) (pairs : Query) :
    operandFragment m path (.query pairs) = Query.fragment m path pairs := by
  rw [operandFragment, Query.fragment]
  congr 1
  induction pairs with
  | nil => rfl
  | cons p rest ih =>
    obtain ⟨field, c⟩ := p
    rw [pairFragments, ih, List.map_cons]

namespace Condition

variable (m : FieldMap) (field : String)

theorem fragment_all (members : List Condition) :
    (combine .all (members.map .condition)).fragment m field = .mergeAll (members.map (fragment m field)) := by
  rw [fragment, memberFragments_map]

theorem fragment_any (members : List Condition) :
    (combine .any (members.map .condition)).fragment m field =
      if members.isEmpty then { filter := some [] }
      else .must (.best ((members.map (fragment m field)).flatMap Fragment.alternatives)) := by
  rw [fragment, memberFragments_map, List.isEmpty_map]

theorem fragment_find (q : Query) :
    (nested .find (.query q)).fragment m field = .must (.nested field (Query.fragment m field q)) := by
  rw [fragment, operandFragment_query]

theorem fragment_nfind (q : Query) :
    (nested .nfind (.query q)).fragment m field = .exclude (.nested field (Query.fragment m field q)) := by
  rw [fragment, operandFragment_query]

end Condition

namespace Translator

variable {t : Translator}

/-- Whether a condition at a depth is nested within the allowed depth. -/
def Reaches (t : Translator) (depth : Nat) (c : Condition) : Prop :=
  c.depth 1 = 0 ∨ ((depth + c.depth 1 : Nat) : Int) ≤ t.maxDepth

/-- Some rule handles every operator. -/
theorem handles_of_rules (h : t.rules = Rule.every) (op : Operator) : t.handles op = true := by
  rw [handles, h]
  rcases op with (_ | _ | _ | _) | _ | _ <;> rfl

theorem result_apply (m : FieldMap) (field : String) : (m.apply field).result = .ok (m.nameOf field) := rfl

theorem result_descend {depth : Nat} (h : ((depth + 1 : Nat) : Int) ≤ t.maxDepth) :
    (t.descend depth).result = .ok (depth + 1) := by
  rw [descend, if_neg (Int.not_lt.2 h)]
  rfl

/-- The members of a conjunction are translated one after the other. -/
theorem result_translateAll {field : String} {depth : Nat} {members : List Condition} {g : Condition → Fragment Clause}
    (hdepth : ∀ c ∈ members, ((depth + 1 : Nat) : Int) ≤ t.maxDepth)
    (h : ∀ c ∈ members, (t.translateOn field (depth + 1) c).result = .ok (g c)) (before : Fragment Clause) :
    (t.translateAll field depth (members.map .condition) before).result =
      .ok ((members.map g).foldl Fragment.merge before) := by
  induction members generalizing before with
  | nil => rfl
  | cons c rest ih =>
    rw [List.map_cons, translateAll, Logged.result_bind (result_descend (hdepth c (.head _))), translateMember,
      Logged.result_bind (h c (.head _)), ih (fun d hd => hdepth d (.tail _ hd)) fun d hd => h d (.tail _ hd)]
    rfl

/-- The members of a disjunction are translated one after the other. -/
theorem result_translateAny {field : String} {depth : Nat} {members : List Condition} {g : Condition → Fragment Clause}
    (hdepth : ∀ c ∈ members, ((depth + 1 : Nat) : Int) ≤ t.maxDepth)
    (h : ∀ c ∈ members, (t.translateOn field (depth + 1) c).result = .ok (g c)) :
    (t.translateAny field depth (members.map .condition)).result =
      .ok ((members.map g).flatMap Fragment.alternatives) := by
  induction members with
  | nil => rfl
  | cons c rest ih =>
    rw [List.map_cons, translateAny, Logged.result_bind (result_descend (hdepth c (.head _))), translateMember,
      Logged.result_bind (h c (.head _)),
      Logged.result_bind (ih (fun d hd => hdepth d (.tail _ hd)) fun d hd => h d (.tail _ hd))]
    rfl

/-- The conditions of a query are translated one after the other. -/
theorem result_translatePairs {path : String} {depth : Nat} {pairs : Query}
    (h : ∀ p ∈ pairs, ∀ field, (t.translateOn field depth p.2).result = .ok (p.2.fragment t.fieldMap field))
    (before : Fragment Clause) :
    (t.translatePairs path depth pairs before).result =
      .ok ((pairs.map fun p => p.2.fragment t.fieldMap (t.fieldMap.nameOf (Path.inside path p.1))).foldl
        Fragment.merge before) := by
  induction pairs generalizing before with
  | nil => rfl
  | cons p rest ih =>
    obtain ⟨field, c⟩ := p
    rw [translatePairs, Logged.result_bind (result_apply t.fieldMap _), Logged.result_bind (h (field, c) (.head _) _),
      ih fun d hd => h d (.tail _ hd)]
    rfl

/-- With every rule, the translation of a condition that can be written and is within the allowed depth ends with its
fragment. -/
theorem result_translateOn (hrules : t.rules = Rule.every) {c : Condition} (hc : c.Has Condition.writtenDaysShape)
    {depth : Nat} (hdepth : t.Reaches depth c) (field : String) :
    (t.translateOn field depth c).result = .ok (c.fragment t.fieldMap field) := by
  induction hc generalizing depth field with
  | @compare op operand hwrites =>
    rw [translateOn, if_pos (handles_of_rules hrules _), Comparison.translate_of_writes hwrites]
    rfl
  | @combine op members _ _ ih =>
    have hwithin : ∀ c ∈ members, t.Reaches (depth + 1) c ∧ ((depth + 1 : Nat) : Int) ≤ t.maxDepth := by
      intro c hc
      have hlt : c.depth 1 < _ := Condition.depth_lt_of_mem op hc
      rcases hdepth with hzero | hle
      · omega
      · exact ⟨.inr (by omega), by omega⟩
    have hparts : ∀ c ∈ members, (t.translateOn field (depth + 1) c).result = .ok (c.fragment t.fieldMap field) :=
      fun c hc => ih c hc (hwithin c hc).1 field
    cases op with
    | all =>
      rw [translateOn, if_pos (handles_of_rules hrules _), result_translateAll (fun c hc => (hwithin c hc).2) hparts,
        Condition.fragment_all]
      rfl
    | any =>
      rw [translateOn, if_pos (handles_of_rules hrules _), Condition.fragment_any, List.isEmpty_map]
      by_cases hempty : members.isEmpty = true
      · simp only [if_pos hempty]
        rfl
      · simp only [if_neg hempty]
        rw [Logged.result_bind (result_translateAny (fun c hc => (hwithin c hc).2) hparts)]
        rfl
  | @nested op pairs _ _ ih =>
    have hbare := Condition.bare_le_depth 1 op pairs
    have hmax : ((depth + 1 : Nat) : Int) ≤ t.maxDepth := by
      rcases hdepth with hzero | hle <;> omega
    have hparts : ∀ p ∈ pairs, ∀ field,
        (t.translateOn field (depth + 1) p.2).result = .ok (p.2.fragment t.fieldMap field) := by
      intro p hp field
      have hlt : p.2.depth 1 < _ := Condition.depth_lt_of_mem_query op hp
      refine ih p hp ?_ field
      rcases hdepth with hzero | hle
      · omega
      · exact .inr (by omega)
    have hquery : (t.translateOperand field (depth + 1) (.query pairs)).result =
        .ok (Query.fragment t.fieldMap field pairs) := by
      rw [translateOperand, result_translatePairs hparts]
      rfl
    cases op with
    | find =>
      rw [translateOn, if_pos (handles_of_rules hrules _), Logged.result_bind (result_descend hmax),
        Logged.result_bind hquery, Condition.fragment_find]
      rfl
    | nfind =>
      rw [translateOn, if_pos (handles_of_rules hrules _), Logged.result_bind (result_descend hmax),
        Logged.result_bind hquery, Condition.fragment_nfind]
      rfl

/-! ## Whatever a translation ends with

Without every rule, or beyond the allowed depth, a translation may fail; where it does not, it ends with the fragment,
and all that was translated can be written.
-/

section Endings

variable {s : Shape}

theorem yields_apply (m : FieldMap) (field : String) : (m.apply field).Yields (· = m.nameOf field) :=
  fun _ h => (Except.ok.inj h).symm

section Members

variable {field : String} {members : List Condition} {g : Condition → Fragment Clause} {P : Condition → Prop}

theorem yields_translateAll
    (h : ∀ c ∈ members, ∀ depth, (t.translateOn field depth c).Yields fun fragment => fragment = g c ∧ P c)
    (depth : Nat) (before : Fragment Clause) :
    (t.translateAll field depth (members.map .condition) before).Yields fun fragment =>
      fragment = (members.map g).foldl Fragment.merge before ∧ ∀ c ∈ members, P c := by
  induction members generalizing before with
  | nil =>
    simp only [List.map_nil, translateAll]
    exact .pure ⟨rfl, nofun⟩
  | cons c rest ih =>
    simp only [List.map_cons, translateAll]
    refine (Logged.Yields.any _).bind fun inner _ => ?_
    refine (h c (.head _) inner).bind ?_
    rintro fragment ⟨rfl, hc⟩
    intro whole hwhole
    obtain ⟨rfl, hrest⟩ := ih (fun d hd => h d (.tail _ hd)) _ whole hwhole
    exact ⟨rfl, List.forall_mem_cons.2 ⟨hc, hrest⟩⟩

theorem yields_translateAny
    (h : ∀ c ∈ members, ∀ depth, (t.translateOn field depth c).Yields fun fragment => fragment = g c ∧ P c)
    (depth : Nat) :
    (t.translateAny field depth (members.map .condition)).Yields fun clauses =>
      clauses = (members.map g).flatMap Fragment.alternatives ∧ ∀ c ∈ members, P c := by
  induction members with
  | nil =>
    simp only [List.map_nil, translateAny]
    exact .pure ⟨rfl, nofun⟩
  | cons c rest ih =>
    simp only [List.map_cons, translateAny]
    refine (Logged.Yields.any _).bind fun inner _ => ?_
    refine (h c (.head _) inner).bind ?_
    rintro fragment ⟨rfl, hc⟩
    refine (ih fun d hd => h d (.tail _ hd)).bind ?_
    rintro clauses ⟨rfl, hrest⟩
    exact .pure ⟨rfl, List.forall_mem_cons.2 ⟨hc, hrest⟩⟩

end Members

theorem yields_translatePairs {path : String} {depth : Nat} {pairs : Query} {P : Condition → Prop}
    (h : ∀ p ∈ pairs, ∀ field, (t.translateOn field depth p.2).Yields fun fragment =>
      fragment = p.2.fragment t.fieldMap field ∧ P p.2) (before : Fragment Clause) :
    (t.translatePairs path depth pairs before).Yields fun fragment =>
      fragment = (pairs.map fun p => p.2.fragment t.fieldMap (t.fieldMap.nameOf (Path.inside path p.1))).foldl
        Fragment.merge before ∧ ∀ p ∈ pairs, P p.2 := by
  induction pairs generalizing before with
  | nil =>
    rw [translatePairs]
    exact .pure ⟨rfl, nofun⟩
  | cons p rest ih =>
    obtain ⟨field, c⟩ := p
    rw [translatePairs]
    refine (yields_apply _ _).bind ?_
    rintro name rfl
    refine (h (field, c) (.head _) _).bind ?_
    rintro fragment ⟨rfl, hc⟩
    intro whole hwhole
    obtain ⟨rfl, hrest⟩ := ih (fun q hq => h q (.tail _ hq)) _ whole hwhole
    exact ⟨rfl, List.forall_mem_cons.2 ⟨hc, hrest⟩⟩

/-- Whatever the translation of a condition ends with is its fragment, and the condition can be written. -/
theorem yields_translateOn {c : Condition} (hc : c.Has s) (field : String) (depth : Nat) :
    (t.translateOn field depth c).Yields fun fragment =>
      fragment = c.fragment t.fieldMap field ∧ c.Has Condition.writtenDaysShape := by
  induction hc generalizing field depth with
  | @compare op operand _ =>
    rw [translateOn]
    split
    · intro fragment hfragment
      rcases Comparison.translate_eq op field operand with ⟨hwrites, hwritten⟩ | ⟨-, hunwritten⟩
      · rw [hwritten] at hfragment
        exact ⟨(Except.ok.inj hfragment).symm, .compare hwrites⟩
      · rw [hunwritten] at hfragment
        cases hfragment
    · exact .fail _
  | @combine op members _ _ ih =>
    have hmembers := fun c hc depth => ih c hc field depth
    rw [Condition.writtenDays_combine_iff]
    cases op with
    | all =>
      rw [translateOn, Condition.fragment_all]
      split
      · exact yields_translateAll hmembers depth {}
      · exact .fail _
    | any =>
      rw [translateOn, Condition.fragment_any, List.isEmpty_map]
      by_cases hempty : members.isEmpty = true
      · obtain rfl := List.isEmpty_iff.1 hempty
        simp only [if_pos hempty]
        split
        · exact .pure ⟨rfl, nofun⟩
        · exact .fail _
      · simp only [if_neg hempty]
        split
        · refine (yields_translateAny hmembers depth).bind ?_
          rintro clauses ⟨rfl, hwritten⟩
          exact .pure ⟨rfl, hwritten⟩
        · exact .fail _
  | @nested op pairs _ _ ih =>
    have hquery : ∀ inner, (t.translateOperand field inner (.query pairs)).Yields fun fragment =>
        fragment = Query.fragment t.fieldMap field pairs ∧ ∀ p ∈ pairs, p.2.Has Condition.writtenDaysShape := by
      intro inner
      rw [translateOperand]
      exact yields_translatePairs (fun p hp name => ih p hp name inner) {}
    rw [Condition.writtenDays_nested_iff, translateOn]
    split
    · refine (Logged.Yields.any _).bind fun inner _ => ?_
      refine (hquery inner).bind ?_
      rintro query ⟨rfl, hwritten⟩
      cases op with
      | find =>
        rw [Condition.fragment_find]
        exact .pure ⟨rfl, hwritten⟩
      | nfind =>
        rw [Condition.fragment_nfind]
        exact .pure ⟨rfl, hwritten⟩
    · exact .fail _

end Endings

/-! ## Statements -/

/-- Every condition of a query is of a shape and within the allowed depth. -/
def ReachesQuery (t : Translator) (s : Shape) (q : Query) : Prop :=
  ∀ p ∈ q, p.2.Has s ∧ t.Reaches 0 p.2

theorem result_translateQuery (hrules : t.rules = Rule.every) {q : Query}
    (hq : t.ReachesQuery Condition.writtenDaysShape q)
    (path : String) : (t.translateQuery path (.query q)).result = .ok (Query.fragment t.fieldMap path q) := by
  rw [translateQuery, translateOperand,
    result_translatePairs fun p hp => result_translateOn hrules (hq p hp).1 (hq p hp).2]
  rfl

theorem result_translateAlternatives (hrules : t.rules = Rule.every) {statement : List Query}
    (h : ∀ q ∈ statement, t.ReachesQuery Condition.writtenDaysShape q) :
    (t.translateAlternatives (statement.map .query)).result =
      .ok (statement.map (Query.fragment t.fieldMap "")) := by
  induction statement with
  | nil => rfl
  | cons q rest ih =>
    rw [List.map_cons, translateAlternatives, Logged.result_bind (result_translateQuery hrules (h q (.head _)) ""),
      Logged.result_bind (ih fun r hr => h r (.tail _ hr))]
    rfl

/-- The clause of a statement of given queries. -/
def statementOf (m : FieldMap) (statement : List Query) : Clause :=
  statementClause (statement.map (Query.fragment m ""))

theorem result_translateEach (hrules : t.rules = Rule.every) {statements : List (List Query)}
    (h : ∀ statement ∈ statements, ∀ q ∈ statement, t.ReachesQuery Condition.writtenDaysShape q) :
    (t.translateEach (Filter.statementsOf statements)).result = .ok (statements.map (statementOf t.fieldMap)) := by
  induction statements with
  | nil => rfl
  | cons statement rest ih =>
    rw [Filter.statementsOf, List.map_cons, translateEach,
      Logged.result_bind (result_translateAlternatives hrules (h statement (.head _))), ← Filter.statementsOf,
      Logged.result_bind (ih fun other hother => h other (.tail _ hother))]
    rfl

/-- Whatever the translation of the alternatives of a statement ends with are their fragments, and each of their
conditions can be written. -/
theorem yields_translateAlternatives {s : Shape} {statement : List Query} (h : ∀ q ∈ statement, ∀ p ∈ q, p.2.Has s) :
    (t.translateAlternatives (statement.map .query)).Yields fun fragments =>
      fragments = statement.map (Query.fragment t.fieldMap "") ∧
        ∀ q ∈ statement, ∀ p ∈ q, p.2.Has Condition.writtenDaysShape := by
  induction statement with
  | nil =>
    simp only [List.map_nil, translateAlternatives]
    exact .pure ⟨rfl, nofun⟩
  | cons q rest ih =>
    simp only [List.map_cons, translateAlternatives, translateQuery, translateOperand]
    refine (yields_translatePairs (fun p hp field => yields_translateOn (h q (.head _) p hp) field 0) {}).bind ?_
    rintro fragment ⟨rfl, hq⟩
    refine (ih fun r hr => h r (.tail _ hr)).bind ?_
    rintro fragments ⟨rfl, hrest⟩
    exact .pure ⟨rfl, List.forall_mem_cons.2 ⟨hq, hrest⟩⟩

/-- Whatever the translation of statements ends with are their clauses, and each of their conditions can be written. -/
theorem yields_translateEach {s : Shape} {statements : List (List Query)}
    (h : ∀ statement ∈ statements, ∀ q ∈ statement, ∀ p ∈ q, p.2.Has s) :
    (t.translateEach (Filter.statementsOf statements)).Yields fun clauses =>
      clauses = statements.map (statementOf t.fieldMap) ∧
        ∀ statement ∈ statements, ∀ q ∈ statement, ∀ p ∈ q, p.2.Has Condition.writtenDaysShape := by
  induction statements with
  | nil =>
    simp only [Filter.statementsOf, List.map_nil, translateEach]
    exact .pure ⟨rfl, nofun⟩
  | cons statement rest ih =>
    simp only [Filter.statementsOf, List.map_cons, translateEach]
    rw [← Filter.statementsOf]
    refine (yields_translateAlternatives (h statement (.head _))).bind ?_
    rintro fragments ⟨rfl, hstatement⟩
    refine (ih fun other hother => h other (.tail _ hother)).bind ?_
    rintro clauses ⟨rfl, hrest⟩
    exact .pure ⟨rfl, List.forall_mem_cons.2 ⟨hstatement, hrest⟩⟩

/-- Statements behind others are translated after them. -/
theorem yields_translateEach_append {before after : List Statement} {P Q : List Clause → Prop}
    (hbefore : (t.translateEach before).Yields P) (hafter : (t.translateEach after).Yields Q) :
    (t.translateEach (before ++ after)).Yields fun clauses => ∃ cs ds, P cs ∧ Q ds ∧ clauses = cs ++ ds := by
  induction before generalizing P with
  | nil =>
    intro clauses hclauses
    exact ⟨[], clauses, hbefore [] rfl, hafter clauses hclauses, rfl⟩
  | cons statement rest ih =>
    rw [List.cons_append, translateEach]
    intro clauses hclauses
    obtain ⟨fragments, hfragments, hclauses⟩ := Logged.result_bind_eq_ok hclauses
    obtain ⟨others, hothers, hclauses⟩ := Logged.result_bind_eq_ok hclauses
    cases hclauses
    have hrest : (t.translateEach rest).Yields fun cs => P (statementClause fragments :: cs) := by
      intro cs hcs
      refine hbefore _ ?_
      rw [translateEach, Logged.result_bind hfragments, Logged.result_bind hcs]
      rfl
    obtain ⟨cs, ds, hcs, hds, rfl⟩ := ih hrest others hothers
    exact ⟨statementClause fragments :: cs, ds, hcs, hds, rfl⟩

/-- Clauses are asked for together, a single one alone. -/
theorem translateStatements_eq (t : Translator) (statements : List Statement) :
    t.translateStatements statements = (t.translateEach statements >>= fun clauses => return .every clauses) := by
  rw [translateStatements]
  congr 1
  funext clauses
  match clauses with
  | [] => rfl
  | [_] => rfl
  | _ :: _ :: _ => rfl

theorem yields_translateStatements {statements : List Statement} {P : List Clause → Prop}
    (h : (t.translateEach statements).Yields P) :
    (t.translateStatements statements).Yields fun c => ∃ clauses, P clauses ∧ c = .every clauses := by
  rw [translateStatements_eq]
  exact h.bind fun clauses hclauses => .pure ⟨clauses, hclauses, rfl⟩

/-- With every rule, the translation of statements that can be written and are within the allowed depth ends with the
clause that asks for the clause of each. -/
theorem result_translateStatements (hrules : t.rules = Rule.every) {statements : List (List Query)}
    (h : ∀ statement ∈ statements, ∀ q ∈ statement, t.ReachesQuery Condition.writtenDaysShape q) :
    (t.translateStatements (Filter.statementsOf statements)).result =
      .ok (.every (statements.map (statementOf t.fieldMap))) := by
  rw [translateStatements_eq, Logged.result_bind (result_translateEach hrules h)]
  rfl

/-! ## Search bodies -/

/-- A search body that is built has the clause of the statements, the clauses of the sort and the limit of the filter;
the questions for its fields are left behind, and then that it is built. -/
theorem build_eq_ok {f : Filter} {body : SearchBody} (h : (t.build f).result = .ok body) :
    (t.translateStatements f.statements).result = .ok body.query ∧ (t.translateSort f).result = .ok body.sort ∧
      body.size = f.limit ∧ ∃ size, recordedSize f.limit = .ok size ∧
        (t.build f).events = (t.translateStatements f.statements).events ++ (t.translateSort f).events ++
          [.built f.statements.length body.sort.length size] := by
  rw [build] at h
  obtain ⟨query, hquery, h⟩ := Logged.result_bind_eq_ok h
  obtain ⟨sort, hsort, h⟩ := Logged.result_bind_eq_ok h
  obtain ⟨size, hsize, h⟩ := Logged.result_bind_eq_ok h
  cases h
  refine ⟨hquery, hsort, rfl, size, hsize, ?_⟩
  rw [build, Logged.events_bind hquery, Logged.events_bind hsort, Logged.events_bind hsize, List.append_assoc]
  rfl

end Translator

end Winnow
