import Winnow.Proofs.Nesting

/-!
# Which rules a translation has

A translation may be given some of the rules only, in any order and several times over. A condition is translated by the
first rule that takes its operator (`Translator.translateOn_eq_firstOf`), and the rules take different operators, so
only what they handle together counts. Where that is every operator of a filter (`Filter.operators`), at whatever depth,
the translation is the one with every rule, event by event; otherwise it is refused. A refusal names a condition or a
depth, and so must be able to write it: that a filter is spelled (`Translator.Spells`) is enough.
-/

namespace Winnow

/-! ## The operators of a filter -/

mutual

/-- The operators of a condition and of the conditions in it. -/
def Condition.operators : Condition → List Operator
  | .compare op _ => [.comparison op]
  | .combine op members => .combinator op :: operatorsOfMembers members
  | .nested op operand => .membership op :: operatorsOfOperand operand
termination_by structural c => c

/-- The operators of the members of a combinator. -/
def operatorsOfMembers : List Value → List Operator
  | [] => []
  | v :: rest => operatorsOfMember v ++ operatorsOfMembers rest
termination_by structural members => members

/-- The operators of a member of a combinator. -/
def operatorsOfMember : Value → List Operator
  | .condition c => c.operators
  | _ => []
termination_by structural v => v

/-- The operators of the operand of a membership. -/
def operatorsOfOperand : Value → List Operator
  | .query pairs => operatorsOfPairs pairs
  | _ => []
termination_by structural v => v

/-- The operators of the conditions of a query. -/
def operatorsOfPairs : List (String × Condition) → List Operator
  | [] => []
  | (_, c) :: rest => c.operators ++ operatorsOfPairs rest
termination_by structural pairs => pairs

end

/-- The operators of a filter, at whatever depth. -/
def Filter.operators (f : Filter) : List Operator :=
  f.conditions.flatMap Condition.operators

namespace Condition

theorem operators_combine (op : Combinator) (members : List Condition) :
    (combine op (members.map .condition)).operators = .combinator op :: members.flatMap operators := by
  rw [operators]
  congr 1
  induction members with
  | nil => rfl
  | cons c rest ih => rw [List.map_cons, operatorsOfMembers, operatorsOfMember, ih, List.flatMap_cons]

theorem operators_nested (op : Membership) (pairs : Query) :
    (nested op (.query pairs)).operators = .membership op :: pairs.flatMap fun p => p.2.operators := by
  rw [operators, operatorsOfOperand]
  congr 1
  induction pairs with
  | nil => rfl
  | cons p rest ih =>
    obtain ⟨field, c⟩ := p
    rw [operatorsOfPairs, ih, List.flatMap_cons]

/-- The operator of a condition is one of its operators. -/
theorem op_mem_operators (c : Condition) : c.op ∈ c.operators := by
  cases c <;> exact List.mem_cons_self

end Condition

/-! ## The first rule that takes a condition -/

/-- What a rule makes of a condition on an indexed field, if it takes the operator. -/
def Rule.apply? (t : Translator) (field : String) (depth : Nat) :
    Rule → Condition → Option (Logged (Fragment Clause))
  | equality, .compare .eq operand => some (.ofResult (Fault.ofWriting (Comparison.eq.translate field operand)))
  | equality, .compare .neq operand => some (.ofResult (Fault.ofWriting (Comparison.neq.translate field operand)))
  | range, .compare (.bound b) operand =>
    some (.ofResult (Fault.ofWriting ((Comparison.bound b).translate field operand)))
  | text, .compare .startsWith operand =>
    some (.ofResult (Fault.ofWriting (Comparison.startsWith.translate field operand)))
  | combination, .combine .all members => some (t.translateAll field depth members {})
  | combination, .combine .any [] => some (return { filter := some [] })
  | combination, .combine .any members => some (do return .must (.best (← t.translateAny field depth members)))
  | membership, .nested .find query => some do
    return .must (.nested field (← t.translateOperand field (← t.descend depth) query))
  | membership, .nested .nfind query => some do
    return .exclude (.nested field (← t.translateOperand field (← t.descend depth) query))
  | _, _ => none

/-- A rule takes nothing but the operators that it handles. -/
theorem Rule.apply?_eq_none {t : Translator} {field : String} {depth : Nat} {rule : Rule} {c : Condition}
    (h : rule.handles c.op = false) : rule.apply? t field depth c = none := by
  unfold Rule.apply?
  split
  case h_10 => rfl
  all_goals cases h

/-- A rule that handles the operator of a condition makes of it what the translation does. -/
theorem Rule.apply?_eq_some {t : Translator} {field : String} {depth : Nat} {rule : Rule} {c : Condition}
    (h : rule.handles c.op = true) (ht : t.handles c.op = true) :
    rule.apply? t field depth c = some (t.translateOn field depth c) := by
  cases c with
  | compare op operand =>
    simp only [Condition.op] at h ht
    rw [Translator.translateOn, if_pos ht]
    cases op <;> cases rule <;> first | rfl | cases h
  | combine op members =>
    simp only [Condition.op] at h ht
    cases op with
    | all =>
      rw [Translator.translateOn, if_pos ht]
      cases rule <;> first | rfl | cases h
    | any =>
      rw [Translator.translateOn, if_pos ht]
      cases members <;> cases rule <;> first | rfl | cases h
  | nested op query =>
    simp only [Condition.op] at h ht
    rw [Translator.translateOn, if_pos ht]
    cases op <;> cases rule <;> first | rfl | cases h

namespace Translator

/-- The fragment of a condition by the first rule that takes it. -/
def firstOf (t : Translator) (field : String) (depth : Nat) (c : Condition) : Logged (Fragment Clause) :=
  (t.rules.findSome? fun rule => rule.apply? t field depth c).getD (refuse c)

/-- What no rule handles is refused. -/
theorem translateOn_eq_refuse {t : Translator} {c : Condition} (h : t.handles c.op = false) (field : String)
    (depth : Nat) : t.translateOn field depth c = refuse c := by
  cases c with
  | compare op operand =>
    simp only [Condition.op] at h
    rw [translateOn, if_neg (by rw [h]; exact Bool.false_ne_true)]
  | combine op members =>
    simp only [Condition.op] at h
    rw [translateOn.eq_def]
    simp only [h, Bool.false_eq_true, ↓reduceIte]
  | nested op query =>
    simp only [Condition.op] at h
    rw [translateOn, if_neg (by rw [h]; exact Bool.false_ne_true)]

/-- A condition is translated by the first rule that takes it. -/
theorem translateOn_eq_firstOf (t : Translator) (field : String) (depth : Nat) (c : Condition) :
    t.translateOn field depth c = t.firstOf field depth c := by
  unfold firstOf
  cases hfirst : t.rules.findSome? fun rule => rule.apply? t field depth c with
  | none =>
    rw [List.findSome?_eq_none_iff] at hfirst
    have hnone : t.handles c.op = false := by
      rw [handles, List.any_eq_false]
      intro rule hrule hhandles
      have htaken : rule.apply? t field depth c = some (t.translateOn field depth c) :=
        Rule.apply?_eq_some hhandles (List.any_eq_true.2 ⟨rule, hrule, hhandles⟩)
      cases (hfirst rule hrule).symm.trans htaken
    exact translateOn_eq_refuse hnone field depth
  | some fragment =>
    obtain ⟨rule, hrule, htaken⟩ := List.exists_of_findSome?_eq_some hfirst
    have hhandles : rule.handles c.op = true := by
      by_contra hnot
      rw [Rule.apply?_eq_none (Bool.eq_false_iff.2 hnot)] at htaken
      cases htaken
    rw [Rule.apply?_eq_some hhandles (List.any_eq_true.2 ⟨rule, hrule, hhandles⟩)] at htaken
    exact Option.some.inj htaken

end Translator

/-! ## Agreement under a condition -/

namespace Logged

variable {α β : Type} {refused : Fault → Prop} {p q : Prop}

/-- One operation is another under a condition. Without it, it fails, and it only ever fails with faults of a kind. -/
structure AgreesIf (refused : Fault → Prop) (p : Prop) (x y : Logged α) : Prop where
  agrees : p → x = y
  fails : ¬p → ∃ fault, x.result = .error fault
  faults : ∀ fault, x.result = .error fault → refused fault

/-- An operation is itself. -/
theorem AgreesIf.same {x : Logged α} (h : ∀ fault, x.result = .error fault → refused fault) :
    x.AgreesIf refused True x where
  agrees := fun _ => rfl
  fails := fun hnot => absurd trivial hnot
  faults := h

theorem AgreesIf.of_ok {x : Logged α} {a : α} (h : x.result = .ok a) : x.AgreesIf refused True x :=
  .same fun fault hfault => by cases h.symm.trans hfault

theorem AgreesIf.congr {x y : Logged α} (h : x.AgreesIf refused p y) (hpq : p ↔ q) : x.AgreesIf refused q y where
  agrees := fun hq => h.agrees (hpq.2 hq)
  fails := fun hq => h.fails fun hp => hq (hpq.1 hp)
  faults := h.faults

/-- A second step counts only on what the first one ends with. -/
theorem bind_congr {x : Logged α} {f g : α → Logged β} (h : ∀ a, x.result = .ok a → f a = g a) :
    (x >>= f) = (x >>= g) := by
  cases hx : x.result with
  | error fault => simp only [bind, andThen, hx]
  | ok a => simp only [bind, andThen, hx, h a hx]

/-- Two steps agree where each of them does: a first step that fails, whether or not it agrees, fails the whole. -/
theorem AgreesIf.bind {x y : Logged α} {f g : α → Logged β} (hx : x.AgreesIf refused p y)
    (hf : ∀ a, x.result = .ok a → (f a).AgreesIf refused q (g a)) : (x >>= f).AgreesIf refused (p ∧ q) (y >>= g) where
  agrees := by
    rintro ⟨hp, hq⟩
    rw [← hx.agrees hp]
    exact bind_congr fun a ha => (hf a ha).agrees hq
  fails := by
    intro hnot
    cases hend : x.result with
    | error fault => exact ⟨fault, result_bind_error hend f⟩
    | ok a =>
      rw [result_bind hend f]
      by_cases hp : p
      · exact (hf a hend).fails fun hq => hnot ⟨hp, hq⟩
      · obtain ⟨fault, hfault⟩ := hx.fails hp
        cases hend.symm.trans hfault
  faults := by
    intro fault hfault
    cases hend : x.result with
    | error early =>
      rw [result_bind_error hend f] at hfault
      cases hfault
      exact hx.faults _ hend
    | ok a =>
      rw [result_bind hend f] at hfault
      exact (hf a hend).faults fault hfault

/-- A last step that always succeeds, the same for both. -/
theorem AgreesIf.before {x y : Logged α} {f : α → Logged β} (hx : x.AgreesIf refused p y)
    (hf : ∀ a, ∃ b, (f a).result = .ok b) : (x >>= f).AgreesIf refused p (y >>= f) := by
  refine (hx.bind (q := True) fun a _ => ?_).congr (and_iff_left trivial)
  obtain ⟨b, hb⟩ := hf a
  exact .of_ok hb

end Logged

/-! ## What a refusal can name -/

namespace Condition

/-- The shape of conditions that can be written as JSON. -/
def spelledShape : Shape where
  operand := fun _ v => v.encode.isSpelled = true
  field := fun _ => True

/-- The data of a condition of that shape has a JSON text. -/
theorem Has.isSpelled_encode {c : Condition} (h : c.Has spelledShape) : c.encode.isSpelled = true := by
  have hentries (name : String) {v : Value} (hv : v.isSpelled = true) :
      (Value.object [("op", .text name), ("value", v)]).isSpelled = true := by
    rw [Value.isSpelled_object, List.all_cons, List.all_cons, hv]
    rfl
  induction h with
  | compare hoperand => exact hentries _ hoperand
  | combine _ _ ih =>
    refine hentries _ ?_
    rw [encodeItems_eq, Value.isSpelled_list, List.map_map, List.all_map, List.all_eq_true]
    exact ih
  | nested _ _ ih =>
    refine hentries _ ?_
    rw [Value.encode, encodePairs_eq, Value.isSpelled_list, List.all_map, List.all_eq_true]
    intro p hp
    have hcondition := ih p hp
    rw [encode, Value.isSpelled_object] at hcondition
    rw [Function.comp_apply, encodePair, Value.isSpelled_object, List.all_cons, hcondition]
    rfl

/-- A condition that can be written as JSON can be written in a search body. -/
theorem Has.written_of_spelled {c : Condition} (h : c.Has spelledShape) : c.Has writtenDaysShape := by
  refine h.mono ?_ (fun _ _ => trivial) fun _ _ _ => trivial
  intro op operand hoperand
  cases op with
  | bound b =>
    cases operand with
    | daysAgo days =>
      have hdays : (encodeDaysAgo days).isSpelled = true := hoperand
      rw [encodeDaysAgo, Value.isSpelled_object, List.all_cons, Bool.and_eq_true, Value.isSpelled_int] at hdays
      exact hdays.1
    | _ => trivial
  | _ => trivial

end Condition

/-! ## Some of the rules in place of every rule -/

namespace Translator

variable {t : Translator} {ops : List Operator} {spelled : Prop}

/-- The translation with every rule, otherwise the same. -/
def withEvery (t : Translator) : Translator :=
  { t with rules := Rule.every }

/-- The first depth that is beyond the allowed one. -/
def firstBeyond (t : Translator) : Int :=
  max t.maxDepth 0 + 1

/-- Whether everything that a refusal may name has a text: the conditions of a filter and the depths at its limit. -/
structure Spells (t : Translator) (f : Filter) : Prop where
  conditions : ∀ c ∈ f.conditions, c.Has Condition.spelledShape
  limit : fitsLimit t.maxDepth = true
  beyond : fitsLimit t.firstBeyond = true

/-- The faults of a translation without some of the rules: one of some operators that no rule handles, or conditions
nested too deeply; where not everything is spelled, that one of these cannot be written. -/
inductive Refuses (t : Translator) (ops : List Operator) (spelled : Prop) : Fault → Prop where
  | unsupported {c : Condition} : c.op ∈ ops → t.handles c.op = false → Refuses t ops spelled (.unsupported c)
  | tooDeep : Refuses t ops spelled (.nestedTooDeep t.firstBeyond t.maxDepth)
  | unwritable : ¬spelled → Refuses t ops spelled .integerUnwritable

/-- Whether a depth is one that a translation comes to. -/
def Reached (t : Translator) (depth : Nat) : Prop :=
  depth = 0 ∨ (depth : Int) ≤ t.maxDepth

/-- What has a text when everything is spelled: the limit and the first depth beyond it. -/
def DepthsSpelled (t : Translator) (spelled : Prop) : Prop :=
  spelled → fitsLimit t.maxDepth = true ∧ fitsLimit t.firstBeyond = true

/-- A step in comes to a depth that a translation comes to, the same with every rule, or is refused. -/
theorem agreesIf_descend {α : Type} (hdepths : t.DepthsSpelled spelled) {depth : Nat} (hdepth : t.Reached depth)
    {p : Prop} {f g : Nat → Logged α}
    (hf : t.Reached (depth + 1) → (f (depth + 1)).AgreesIf (t.Refuses ops spelled) p (g (depth + 1))) :
    (t.descend depth >>= f).AgreesIf (t.Refuses ops spelled) p (t.withEvery.descend depth >>= g) := by
  have hstep : (t.descend depth).AgreesIf (t.Refuses ops spelled) True (t.withEvery.descend depth) := by
    refine .same fun fault hfault => ?_
    unfold descend at hfault
    split at hfault
    · next hbeyond =>
      have hfirst : ((depth + 1 : Nat) : Int) = t.firstBeyond := by
        unfold Reached at hdepth
        unfold firstBeyond
        omega
      cases hfault
      rw [hfirst]
      by_cases hspelled : spelled
      · obtain ⟨hlimit, hfits⟩ := hdepths hspelled
        rw [Fault.worded_nestedTooDeep hfits hlimit]
        exact .tooDeep
      · rcases (Fault.nestedTooDeep t.firstBeyond t.maxDepth).worded_cases with hworded | hworded
        · rw [hworded]
          exact .tooDeep
        · rw [hworded]
          exact .unwritable hspelled
    · cases hfault
  refine (hstep.bind fun a ha => ?_).congr (and_iff_right trivial)
  unfold descend at ha
  split at ha
  · cases ha
  · next hwithin =>
    cases ha
    exact hf (.inr (Int.not_lt.1 hwithin))

/-- What is translated when a rule handles its operator, and refused otherwise. -/
theorem agreesIf_translateOn_of_handles {c : Condition} (hop : c.op ∈ ops)
    (hspelled : spelled → c.encode.isSpelled = true) {p : Prop} {field : String} {depth : Nat}
    {y : Logged (Fragment Clause)}
    (h : t.handles c.op = true → (t.translateOn field depth c).AgreesIf (t.Refuses ops spelled) p y) :
    (t.translateOn field depth c).AgreesIf (t.Refuses ops spelled) (t.handles c.op = true ∧ p) y := by
  by_cases hhandles : t.handles c.op = true
  · exact (h hhandles).congr (and_iff_right hhandles).symm
  · rw [translateOn_eq_refuse (Bool.eq_false_iff.2 hhandles)]
    refine ⟨fun hp => absurd hp.1 hhandles, fun _ => ⟨_, rfl⟩, fun fault hfault => ?_⟩
    cases hfault
    rw [Fault.worded_unsupported]
    split
    · exact .unsupported hop (Bool.eq_false_iff.2 hhandles)
    · next hunspelled => exact .unwritable fun h => hunspelled (hspelled h)

section Members

variable {field : String} {depth : Nat} {members : List Condition} {P : Condition → Prop}

theorem agreesIf_translateAll (hdepths : t.DepthsSpelled spelled) (hdepth : t.Reached depth)
    (h : ∀ c ∈ members, t.Reached (depth + 1) → (t.translateOn field (depth + 1) c).AgreesIf (t.Refuses ops spelled)
      (P c) (t.withEvery.translateOn field (depth + 1) c))
    (before : Fragment Clause) :
    (t.translateAll field depth (members.map .condition) before).AgreesIf (t.Refuses ops spelled) (∀ c ∈ members, P c)
      (t.withEvery.translateAll field depth (members.map .condition) before) := by
  induction members generalizing before with
  | nil => exact (Logged.AgreesIf.of_ok rfl).congr (iff_of_true trivial nofun)
  | cons c rest ih =>
    rw [List.map_cons, translateAll, translateAll, List.forall_mem_cons]
    exact agreesIf_descend hdepths hdepth fun hreached => (h c (.head _) hreached).bind fun fragment _ =>
      ih (fun d hd => h d (.tail _ hd)) (before.merge fragment)

theorem agreesIf_translateAny (hdepths : t.DepthsSpelled spelled) (hdepth : t.Reached depth)
    (h : ∀ c ∈ members, t.Reached (depth + 1) → (t.translateOn field (depth + 1) c).AgreesIf (t.Refuses ops spelled)
      (P c) (t.withEvery.translateOn field (depth + 1) c)) :
    (t.translateAny field depth (members.map .condition)).AgreesIf (t.Refuses ops spelled) (∀ c ∈ members, P c)
      (t.withEvery.translateAny field depth (members.map .condition)) := by
  induction members with
  | nil => exact (Logged.AgreesIf.of_ok rfl).congr (iff_of_true trivial nofun)
  | cons c rest ih =>
    rw [List.map_cons, translateAny, translateAny, List.forall_mem_cons]
    exact agreesIf_descend hdepths hdepth fun hreached => (h c (.head _) hreached).bind fun fragment _ =>
      (ih fun d hd => h d (.tail _ hd)).before fun clauses => ⟨_, rfl⟩

end Members

theorem agreesIf_translatePairs {path : String} {depth : Nat} {pairs : Query} {P : Condition → Prop}
    (h : ∀ p ∈ pairs, ∀ field, (t.translateOn field depth p.2).AgreesIf (t.Refuses ops spelled) (P p.2)
      (t.withEvery.translateOn field depth p.2))
    (before : Fragment Clause) :
    (t.translatePairs path depth pairs before).AgreesIf (t.Refuses ops spelled) (∀ p ∈ pairs, P p.2)
      (t.withEvery.translatePairs path depth pairs before) := by
  induction pairs generalizing before with
  | nil => exact (Logged.AgreesIf.of_ok rfl).congr (iff_of_true trivial nofun)
  | cons p rest ih =>
    obtain ⟨field, c⟩ := p
    rw [translatePairs, translatePairs]
    refine ((Logged.AgreesIf.of_ok (result_apply t.fieldMap _)).bind fun indexed _ =>
      (h (field, c) (.head _) indexed).bind fun fragment _ =>
        ih (fun d hd => h d (.tail _ hd)) (before.merge fragment)).congr ?_
    rw [List.forall_mem_cons, true_and]

/-- A condition is translated as with every rule when its operators are handled, at whatever depth they stand, and is
refused otherwise. The induction is on the condition, whose parts are translated with the same rules. -/
theorem agreesIf_translateOn (hdepths : t.DepthsSpelled spelled) {s : Shape} {c : Condition} (hc : c.Has s)
    (hops : c.operators ⊆ ops) (hspelled : spelled → c.Has Condition.spelledShape) (field : String) {depth : Nat}
    (hdepth : t.Reached depth) :
    (t.translateOn field depth c).AgreesIf (t.Refuses ops spelled) (∀ op ∈ c.operators, t.handles op = true)
      (t.withEvery.translateOn field depth c) := by
  have hevery : ∀ op, t.withEvery.handles op = true := handles_of_rules rfl
  have hencoded : spelled → c.encode.isSpelled = true := fun h => (hspelled h).isSpelled_encode
  induction hc generalizing field depth with
  | @compare op operand _ =>
    refine (agreesIf_translateOn_of_handles (hops (Condition.op_mem_operators _)) hencoded fun hhandles => ?_).congr
      (p := _ ∧ True) ?_
    · simp only [Condition.op] at hhandles
      rw [translateOn, if_pos hhandles, translateOn, if_pos (hevery _)]
      refine .same fun fault hfault => ?_
      rcases Comparison.translate_eq op field operand with ⟨-, htranslate⟩ | ⟨hnot, htranslate⟩
      · rw [htranslate] at hfault
        cases hfault
      · rw [htranslate] at hfault
        cases hfault
        exact .unwritable fun h => hnot (Condition.writtenDays_compare_iff.1 (hspelled h).written_of_spelled)
    · simp only [Condition.op, Condition.operators, List.forall_mem_singleton, and_true]
  | @combine op members _ _ ih =>
    rw [Condition.operators_combine] at hops ⊢
    have hparts : ∀ c ∈ members, t.Reached (depth + 1) → (t.translateOn field (depth + 1) c).AgreesIf
        (t.Refuses ops spelled) (∀ op ∈ c.operators, t.handles op = true)
        (t.withEvery.translateOn field (depth + 1) c) := by
      intro c hc hreached
      have hpart : spelled → c.Has Condition.spelledShape := fun h => (Condition.has_combine_iff.1 (hspelled h) c hc).2
      exact ih c hc (fun o ho => hops (.tail _ (List.mem_flatMap.2 ⟨c, hc, ho⟩))) hpart field hreached
        fun h => (hpart h).isSpelled_encode
    refine (agreesIf_translateOn_of_handles (hops List.mem_cons_self) hencoded fun hhandles => ?_).congr
      (p := _ ∧ ∀ c ∈ members, ∀ op ∈ c.operators, t.handles op = true) ?_
    · simp only [Condition.op] at hhandles
      cases op with
      | all =>
        rw [translateOn, if_pos hhandles, translateOn, if_pos (hevery _)]
        exact agreesIf_translateAll hdepths hdepth hparts {}
      | any =>
        rw [translateOn, if_pos hhandles, translateOn, if_pos (hevery _)]
        split
        · next hempty =>
          rw [List.isEmpty_iff, List.map_eq_nil_iff] at hempty
          subst hempty
          exact (Logged.AgreesIf.of_ok rfl).congr (iff_of_true trivial fun c hc => absurd hc List.not_mem_nil)
        · exact (agreesIf_translateAny hdepths hdepth hparts).before fun clauses => ⟨_, rfl⟩
    · simp only [Condition.op, List.forall_mem_cons, List.forall_mem_flatMap]
  | @nested op pairs _ _ ih =>
    rw [Condition.operators_nested] at hops ⊢
    have hparts : t.Reached (depth + 1) → ∀ p ∈ pairs, ∀ field, (t.translateOn field (depth + 1) p.2).AgreesIf
        (t.Refuses ops spelled) (∀ op ∈ p.2.operators, t.handles op = true)
        (t.withEvery.translateOn field (depth + 1) p.2) := by
      intro hreached p hp field
      have hpart : spelled → p.2.Has Condition.spelledShape :=
        fun h => (Condition.has_nested_iff.1 (hspelled h) p hp).2
      exact ih p hp (fun o ho => hops (.tail _ (List.mem_flatMap.2 ⟨p, hp, ho⟩))) hpart field hreached
        fun h => (hpart h).isSpelled_encode
    refine (agreesIf_translateOn_of_handles (hops List.mem_cons_self) hencoded fun hhandles => ?_).congr
      (p := _ ∧ ∀ p ∈ pairs, ∀ op ∈ p.2.operators, t.handles op = true) ?_
    · simp only [Condition.op] at hhandles
      rw [translateOn, if_pos hhandles, translateOn, if_pos (hevery _)]
      refine agreesIf_descend hdepths hdepth fun hreached => ?_
      rw [translateOperand, translateOperand]
      refine (agreesIf_translatePairs (P := fun c => ∀ op ∈ c.operators, t.handles op = true) (hparts hreached)
        {}).before ?_
      intro fragment
      cases op with
      | find => exact ⟨_, rfl⟩
      | nfind => exact ⟨_, rfl⟩
    · simp only [Condition.op, List.forall_mem_cons, List.forall_mem_flatMap]

/-! ## Filters -/

theorem agreesIf_translateAlternatives {P : Condition → Prop} {statement : List Query}
    (h : ∀ q ∈ statement, ∀ p ∈ q, ∀ field, (t.translateOn field 0 p.2).AgreesIf (t.Refuses ops spelled) (P p.2)
      (t.withEvery.translateOn field 0 p.2)) :
    (t.translateAlternatives (statement.map .query)).AgreesIf (t.Refuses ops spelled)
      (∀ q ∈ statement, ∀ p ∈ q, P p.2) (t.withEvery.translateAlternatives (statement.map .query)) := by
  induction statement with
  | nil => exact (Logged.AgreesIf.of_ok rfl).congr (iff_of_true trivial nofun)
  | cons q rest ih =>
    rw [List.map_cons, translateAlternatives, translateAlternatives, List.forall_mem_cons]
    exact (agreesIf_translatePairs (h q (.head _)) {}).bind fun fragment _ =>
      (ih fun r hr => h r (.tail _ hr)).before fun fragments => ⟨_, rfl⟩

theorem agreesIf_translateEach {P : Condition → Prop} {statements : List (List Query)}
    (h : ∀ statement ∈ statements, ∀ q ∈ statement, ∀ p ∈ q, ∀ field, (t.translateOn field 0 p.2).AgreesIf
      (t.Refuses ops spelled) (P p.2) (t.withEvery.translateOn field 0 p.2)) :
    (t.translateEach (Filter.statementsOf statements)).AgreesIf (t.Refuses ops spelled)
      (∀ statement ∈ statements, ∀ q ∈ statement, ∀ p ∈ q, P p.2)
      (t.withEvery.translateEach (Filter.statementsOf statements)) := by
  induction statements with
  | nil => exact (Logged.AgreesIf.of_ok rfl).congr (iff_of_true trivial nofun)
  | cons statement rest ih =>
    rw [Filter.statementsOf, List.map_cons, translateEach, translateEach, ← Filter.statementsOf, List.forall_mem_cons]
    exact (agreesIf_translateAlternatives (h statement (.head _))).bind fun fragments _ =>
      (ih fun other hother => h other (.tail _ hother)).before fun clauses => ⟨_, rfl⟩

/-- A filter is translated as with every rule when each operator in it is handled, and is refused otherwise. -/
theorem agreesIf_build {f : Filter} (hf : f.IsFormed) :
    (t.build f).AgreesIf (t.Refuses f.operators (t.Spells f)) (∀ op ∈ f.operators, t.handles op = true)
      (t.withEvery.build f) := by
  obtain ⟨statements, hstatements, hqueries⟩ := hf.statements
  obtain ⟨n, hlimit⟩ := hf.limit
  have hdepths : t.DepthsSpelled (t.Spells f) := fun h => ⟨h.limit, h.beyond⟩
  have hconditions : ∀ statement ∈ statements, ∀ q ∈ statement, ∀ p ∈ q, ∀ field,
      (t.translateOn field 0 p.2).AgreesIf (t.Refuses f.operators (t.Spells f))
        (∀ op ∈ p.2.operators, t.handles op = true) (t.withEvery.translateOn field 0 p.2) := by
    intro statement hstatement q hq p hp field
    have hmem : p.2 ∈ f.conditions :=
      (Filter.mem_conditions hstatements).2 ⟨statement, hstatement, q, hq, p, hp, rfl⟩
    have hops : p.2.operators ⊆ f.operators := fun op hop => List.mem_flatMap.2 ⟨p.2, hmem, hop⟩
    exact agreesIf_translateOn hdepths (hqueries statement hstatement q hq p hp).2 hops
      (fun h => h.conditions p.2 hmem) field (.inl rfl)
  have htranslate : (t.translateStatements f.statements).AgreesIf (t.Refuses f.operators (t.Spells f))
      (∀ statement ∈ statements, ∀ q ∈ statement, ∀ p ∈ q, ∀ op ∈ p.2.operators, t.handles op = true)
      (t.withEvery.translateStatements f.statements) := by
    rw [hstatements, translateStatements_eq, translateStatements_eq]
    exact (agreesIf_translateEach (P := fun c => ∀ op ∈ c.operators, t.handles op = true) hconditions).before
      fun clauses => ⟨_, rfl⟩
  refine Logged.AgreesIf.congr (htranslate.before fun query => ?_) ?_
  · obtain ⟨sort, hsort⟩ := result_translateSort t hf.sortField hf.subProp
    rw [Logged.result_bind hsort, hlimit]
    exact ⟨_, rfl⟩
  · rw [Filter.operators, List.forall_mem_flatMap, Filter.forall_mem_conditions hstatements]

/-- Only what the rules handle together counts, neither their order nor how often they are given: a condition is
translated by the first that takes it; a filter whose operators are all handled, at whatever depth they stand, is
translated as with every rule; and a filter with any other operator is never translated. -/
theorem build_withEvery_or_refused {f : Filter} (hf : f.IsFormed) :
    (∀ field depth c, t.translateOn field depth c = t.firstOf field depth c) ∧
      ((∀ op ∈ f.operators, t.handles op = true) → t.build f = t.withEvery.build f) ∧
      ((∃ op ∈ f.operators, t.handles op = false) →
        ∃ fault, (t.build f).result = .error fault ∧ t.Refuses f.operators (t.Spells f) fault) := by
  have hbuild := agreesIf_build (t := t) hf
  refine ⟨translateOn_eq_firstOf t, hbuild.agrees, ?_⟩
  rintro ⟨op, hop, hnone⟩
  have hnot : ¬∀ op ∈ f.operators, t.handles op = true := fun h => Bool.false_ne_true (hnone.symm.trans (h op hop))
  obtain ⟨fault, hfault⟩ := hbuild.fails hnot
  exact ⟨fault, hfault, hbuild.faults fault hfault⟩

/-- A page that is early or late, or of which something else holds. -/
def earlyOrLate (other : Condition) : Condition :=
  .combine .any ([.within .lt (.int 2), .within .gt (.int 8), other].map .condition)

/-- Visits of such a page. -/
def visitsOf (other : Condition) : Filter :=
  { statements := Filter.statementsOf [[[("visits", .find [("page", earlyOrLate other)])]]] }

/-- Some of the rules, one of them twice. -/
def fewRules : Translator :=
  { rules := [.membership, .range, .membership, .combination] }

theorem isFormed_visitsOf (op : Comparison) (operand : Value) : (visitsOf (.compare op operand)).IsFormed := by
  refine ⟨⟨_, rfl, ?_⟩, ⟨10, rfl⟩, rfl, rfl⟩
  simp [Query.Has, earlyOrLate, Condition.find, Condition.within, Condition.has_nested_iff, Condition.has_combine_iff,
    Condition.has_compare_iff, anyShape, -List.map_cons, -List.map_nil]

theorem spells_visitsOf {op : Comparison} {operand : Value} (h : operand.encode.isSpelled = true) :
    fewRules.Spells (visitsOf (.compare op operand)) where
  conditions := by
    have hint (n : Int) (hn : n.natAbs < Nat.pow 10 9) : (Value.int n).encode.isSpelled = true :=
      (Value.isSpelled_int n).trans (fitsLimit_of_lt hn)
    refine List.forall_mem_singleton.2 (Condition.has_nested_iff.2 ?_)
    refine List.forall_mem_singleton.2 ⟨trivial, Condition.has_combine_iff.2 ?_⟩
    simp only [List.forall_mem_cons, List.not_mem_nil, false_implies, implies_true, and_true]
    exact ⟨⟨trivial, .compare (hint 2 (by decide))⟩, ⟨trivial, .compare (hint 8 (by decide))⟩, trivial, .compare h⟩
  limit := fitsLimit_of_lt (by decide)
  beyond := fitsLimit_of_lt (by decide)

/-- The few rules are as good as every rule as long as only ranges are asked for; they refuse an equality. -/
theorem build_withEvery_or_refused_visitsOf :
    fewRules.build (visitsOf (.within .lte (.int 0))) = fewRules.withEvery.build (visitsOf (.within .lte (.int 0))) ∧
      (∃ body, (fewRules.withEvery.build (visitsOf (.within .lte (.int 0)))).result = .ok body) ∧
      fewRules.Spells (visitsOf (.eq (.int 5))) ∧
      ∃ fault, (fewRules.build (visitsOf (.eq (.int 5)))).result = .error fault ∧
        fewRules.Refuses (visitsOf (.eq (.int 5))).operators (fewRules.Spells (visitsOf (.eq (.int 5)))) fault := by
  have hranges := (build_withEvery_or_refused (t := fewRules) (isFormed_visitsOf (.bound .lte) (.int 0))).2.1
  have hequality := (build_withEvery_or_refused (t := fewRules) (isFormed_visitsOf .eq (.int 5))).2.2
  have hspells : fewRules.Spells (visitsOf (.eq (.int 5))) :=
    spells_visitsOf ((Value.isSpelled_int 5).trans (fitsLimit_of_lt (by decide)))
  exact ⟨hranges (by decide), ⟨_, rfl⟩, hspells, hequality ⟨.comparison .eq, by decide, by decide⟩⟩

end Translator

end Winnow
