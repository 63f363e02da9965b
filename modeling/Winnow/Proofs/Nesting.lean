import Winnow.Proofs.Accepted
import Winnow.Proofs.Translation

/-!
# Depth when reading and when translating

Reading counts the conditions above a condition; translating counts those above and a query inside a membership. The two
differ on a bare membership, one whose query has no conditions: to a translation its query is one level more, and to
reading it is nothing. A filter that is read within a depth and can be written is translated within the same depth
exactly when no bare membership stands at that depth (`Translator.build_decoded`); one level more is always enough.
-/

namespace Winnow

/-! ## Operations that make demands -/

namespace Logged

variable {α β : Type} {refusal : Fault} {p p' q q' : Prop}

/-- How an operation ends that makes two demands: it succeeds when both are met. Otherwise it is refused for the first
one, with a given fault, or it comes to something that cannot be written, for the second one. -/
inductive Demands (refusal : Fault) (p q : Prop) (x : Logged α) : Prop where
  | met (a : α) : p → q → x.result = .ok a → Demands refusal p q x
  | refused : ¬p → x.result = .error refusal → Demands refusal p q x
  | unwritten : ¬q → x.result = .error .integerUnwritable → Demands refusal p q x

namespace Demands

variable {x : Logged α} {f : α → Logged β}

theorem congr (h : x.Demands refusal p q) (hp : p ↔ p') (hq : q ↔ q') : x.Demands refusal p' q' := by
  cases h with
  | met a hfirst hsecond hresult => exact .met a (hp.1 hfirst) (hq.1 hsecond) hresult
  | refused hnot hresult => exact .refused (fun h => hnot (hp.2 h)) hresult
  | unwritten hnot hresult => exact .unwritten (fun h => hnot (hq.2 h)) hresult

/-- Two steps make the demands of both, the second one on the value of the first. -/
theorem bind (hx : x.Demands refusal p q)
    (hf : p → ∀ a, x.result = .ok a → (f a).Demands refusal p' q') : (x >>= f).Demands refusal (p ∧ p') (q ∧ q') := by
  cases hx with
  | refused hnot hresult => exact .refused (fun h => hnot h.1) (result_bind_error hresult f)
  | unwritten hnot hresult => exact .unwritten (fun h => hnot h.1) (result_bind_error hresult f)
  | met a hp hq ha =>
    cases hf hp a ha with
    | met b hp' hq' hb => exact .met b ⟨hp, hp'⟩ ⟨hq, hq'⟩ ((result_bind ha f).trans hb)
    | refused hnot hresult => exact .refused (fun h => hnot h.2) ((result_bind ha f).trans hresult)
    | unwritten hnot hresult => exact .unwritten (fun h => hnot h.2) ((result_bind ha f).trans hresult)

/-- A first step that always succeeds leaves the demands to the second one. -/
theorem after {a : α} (hx : x.result = .ok a) (hf : (f a).Demands refusal p q) : (x >>= f).Demands refusal p q := by
  have hfirst : x.Demands refusal True True := .met a trivial trivial hx
  refine (hfirst.bind fun _ b hb => ?_).congr (and_iff_right trivial) (and_iff_right trivial)
  obtain rfl := Except.ok.inj (hx.symm.trans hb)
  exact hf

/-- A last step that always succeeds leaves the demands to the first one. -/
theorem before (hx : x.Demands refusal p q) (hf : ∀ a, ∃ b, (f a).result = .ok b) :
    (x >>= f).Demands refusal p q := by
  refine (hx.bind fun _ a _ => ?_).congr (and_iff_left trivial) (and_iff_left trivial)
  obtain ⟨b, hb⟩ := hf a
  exact .met b trivial trivial hb

/-- An operation succeeds exactly when its demands are met. -/
theorem succeeds_iff (h : x.Demands refusal p q) : (∃ a, x.result = .ok a) ↔ p ∧ q := by
  cases h with
  | met a hp hq ha => exact iff_of_true ⟨a, ha⟩ ⟨hp, hq⟩
  | refused hnot hresult =>
    refine iff_of_false ?_ fun h => hnot h.1
    rintro ⟨a, ha⟩
    cases ha.symm.trans hresult
  | unwritten hnot hresult =>
    refine iff_of_false ?_ fun h => hnot h.2
    rintro ⟨a, ha⟩
    cases ha.symm.trans hresult

/-- An operation that can be written is refused where its first demand is not met. -/
theorem refused_of (h : x.Demands refusal p q) (hp : ¬p) (hq : q) : x.result = .error refusal := by
  cases h with
  | met _ hmet _ _ => exact absurd hmet hp
  | refused _ hresult => exact hresult
  | unwritten hnot _ => exact absurd hq hnot

/-- An operation that is not refused can fail only because it cannot be written. -/
theorem unwritten_of (h : x.Demands refusal p q) (hp : p) (hq : ¬q) : x.result = .error .integerUnwritable := by
  cases h with
  | met _ _ hmet _ => exact absurd hmet hq
  | refused hnot _ => exact absurd hp hnot
  | unwritten _ hresult => exact hresult

/-- The fault of an operation tells which of its demands is not met. -/
theorem fault_cases (h : x.Demands refusal p q) {fault : Fault} (hfault : x.result = .error fault) :
    ¬p ∧ fault = refusal ∨ ¬q ∧ fault = .integerUnwritable := by
  cases h with
  | met _ _ _ ha => cases ha.symm.trans hfault
  | refused hnot hresult => exact .inl ⟨hnot, Except.error.inj (hfault.symm.trans hresult)⟩
  | unwritten hnot hresult => exact .inr ⟨hnot, Except.error.inj (hfault.symm.trans hresult)⟩

end Demands

end Logged

/-! ## Translations that are refused -/

namespace Translator

variable {t : Translator}

/-- The fault of a translation that comes to conditions nested too deeply. -/
def tooDeep (t : Translator) : Fault :=
  (Fault.nestedTooDeep (t.maxDepth + 1) t.maxDepth).worded

/-- Whether a number of levels further in is within the allowed depth. -/
def Allows (t : Translator) (depth levels : Nat) : Prop :=
  (depth : Int) + levels ≤ t.maxDepth

/-- A refusal names the first depth beyond the allowed one, when that has a text. -/
theorem tooDeep_eq (hdepth : 0 ≤ t.maxDepth) (hfits : fitsLimit (t.maxDepth + 1) = true) :
    t.tooDeep = .nestedTooDeep (t.maxDepth + 1) t.maxDepth :=
  Fault.worded_nestedTooDeep hfits (fitsLimit_of_le (by omega) hfits)

/-- A step in and what is done there demand that the step is allowed, and what is demanded there. -/
theorem demands_descend {α : Type} {depth : Nat} (hdepth : t.Allows depth 0) {p q : Prop} {f : Nat → Logged α}
    (hf : t.Allows (depth + 1) 0 → (f (depth + 1)).Demands t.tooDeep p q) :
    (t.descend depth >>= f).Demands t.tooDeep (t.Allows (depth + 1) 0 ∧ p) (True ∧ q) := by
  unfold Allows at hdepth
  by_cases hallowed : t.Allows (depth + 1) 0
  · have hstep : (t.descend depth).result = .ok (depth + 1) := by
      refine result_descend ?_
      unfold Allows at hallowed
      omega
    refine .bind (.met _ hallowed trivial hstep) fun _ a ha => ?_
    obtain rfl := Except.ok.inj (hstep.symm.trans ha)
    exact hf hallowed
  · refine .refused (fun h => hallowed h.1) (Logged.result_bind_error ?_ f)
    unfold Allows at hallowed
    have heq : ((depth + 1 : Nat) : Int) = t.maxDepth + 1 := by omega
    rw [descend, if_pos (by omega), heq]
    rfl

section Members

variable {field : String} {depth : Nat} {members : List Condition} {P Q : Condition → Prop}

/-- The members of a conjunction demand that a step in is allowed for each, and what each demands there. -/
theorem demands_translateAll (hdepth : t.Allows depth 0)
    (h : ∀ c ∈ members, t.Allows (depth + 1) 0 → (t.translateOn field (depth + 1) c).Demands t.tooDeep (P c) (Q c))
    (before : Fragment Clause) :
    (t.translateAll field depth (members.map .condition) before).Demands t.tooDeep
      (∀ c ∈ members, t.Allows (depth + 1) 0 ∧ P c) (∀ c ∈ members, Q c) := by
  induction members generalizing before with
  | nil => exact .met before nofun nofun rfl
  | cons c rest ih =>
    rw [List.map_cons, translateAll]
    refine (demands_descend hdepth fun hallowed => (h c (.head _) hallowed).bind fun _ fragment _ =>
      ih (fun d hd => h d (.tail _ hd)) (before.merge fragment)).congr ?_ ?_
    · rw [List.forall_mem_cons, and_assoc]
    · rw [List.forall_mem_cons, true_and]

/-- The members of a disjunction demand that a step in is allowed for each, and what each demands there. -/
theorem demands_translateAny (hdepth : t.Allows depth 0)
    (h : ∀ c ∈ members, t.Allows (depth + 1) 0 → (t.translateOn field (depth + 1) c).Demands t.tooDeep (P c) (Q c)) :
    (t.translateAny field depth (members.map .condition)).Demands t.tooDeep
      (∀ c ∈ members, t.Allows (depth + 1) 0 ∧ P c) (∀ c ∈ members, Q c) := by
  induction members with
  | nil => exact .met [] nofun nofun rfl
  | cons c rest ih =>
    rw [List.map_cons, translateAny]
    refine (demands_descend hdepth fun hallowed => (h c (.head _) hallowed).bind fun _ fragment _ =>
      (ih fun d hd => h d (.tail _ hd)).before fun clauses => ⟨_, rfl⟩).congr ?_ ?_
    · rw [List.forall_mem_cons, and_assoc]
    · rw [List.forall_mem_cons, true_and]

end Members

/-- The conditions of a query demand what each of them does. -/
theorem demands_translatePairs {path : String} {depth : Nat} {pairs : Query} {P Q : Condition → Prop}
    (h : ∀ p ∈ pairs, ∀ field, (t.translateOn field depth p.2).Demands t.tooDeep (P p.2) (Q p.2))
    (before : Fragment Clause) :
    (t.translatePairs path depth pairs before).Demands t.tooDeep (∀ p ∈ pairs, P p.2) (∀ p ∈ pairs, Q p.2) := by
  induction pairs generalizing before with
  | nil => exact .met before nofun nofun rfl
  | cons p rest ih =>
    obtain ⟨field, c⟩ := p
    rw [translatePairs]
    refine .after (result_apply t.fieldMap _) ?_
    refine ((h (field, c) (.head _) _).bind fun _ fragment _ => ih (fun d hd => h d (.tail _ hd)) _).congr ?_ ?_
    · rw [List.forall_mem_cons]
    · rw [List.forall_mem_cons]

/-- A combinator keeps within the allowed depth when a step in is allowed for each member and each member keeps within
it there. -/
theorem allows_combine_iff {depth : Nat} (hdepth : t.Allows depth 0) {op : Combinator} {members : List Condition} :
    (∀ c ∈ members, t.Allows (depth + 1) 0 ∧ t.Allows (depth + 1) (c.depth 1)) ↔
      t.Allows depth ((Condition.combine op (members.map .condition)).depth 1) := by
  unfold Allows at hdepth ⊢
  have hle := @Condition.depth_combine_le 1 (t.maxDepth - depth).toNat op members
  constructor
  · intro h
    have := hle.2 fun c hc => by have := h c hc; omega
    omega
  · intro h c hc
    have := hle.1 (by omega) c hc
    omega

/-- A membership keeps within the allowed depth when a step in is allowed and each condition of its query keeps within
it there. -/
theorem allows_nested_iff {depth : Nat} (hdepth : t.Allows depth 0) {op : Membership} {pairs : Query} :
    (t.Allows (depth + 1) 0 ∧ ∀ p ∈ pairs, t.Allows (depth + 1) (p.2.depth 1)) ↔
      t.Allows depth ((Condition.nested op (.query pairs)).depth 1) := by
  unfold Allows at hdepth ⊢
  have hle := @Condition.depth_nested_le 1 (t.maxDepth - depth).toNat op pairs
  constructor
  · rintro ⟨hstep, h⟩
    have := hle.2 ⟨by omega, fun p hp => by have := h p hp; omega⟩
    omega
  · intro h
    obtain ⟨hstep, hparts⟩ := hle.1 (by omega)
    exact ⟨by omega, fun p hp => by have := hparts p hp; omega⟩

/-- With every rule, a condition demands that it is nested within the allowed depth, a bare query counting as a level,
and that it can be written. The induction is on the condition; each step in adds one to the depth that the members are
translated at. -/
theorem demands_translateOn (hrules : t.rules = Rule.every) {s : Shape} {c : Condition} (hc : c.Has s)
    {depth : Nat} (hdepth : t.Allows depth 0) (field : String) :
    (t.translateOn field depth c).Demands t.tooDeep (t.Allows depth (c.depth 1))
      (c.Has Condition.writtenDaysShape) := by
  induction hc generalizing depth field with
  | @compare op operand _ =>
    rw [translateOn, if_pos (handles_of_rules hrules _), Condition.writtenDays_compare_iff]
    rcases Comparison.translate_eq op field operand with ⟨hwrites, htranslate⟩ | ⟨hnot, htranslate⟩
    · rw [htranslate]
      exact .met _ hdepth hwrites rfl
    · rw [htranslate]
      exact .unwritten hnot rfl
  | @combine op members _ _ ih =>
    rw [Condition.writtenDays_combine_iff]
    have hparts : ∀ c ∈ members, t.Allows (depth + 1) 0 → (t.translateOn field (depth + 1) c).Demands t.tooDeep
        (t.Allows (depth + 1) (c.depth 1)) (c.Has Condition.writtenDaysShape) :=
      fun c hc hallowed => ih c hc hallowed field
    cases op with
    | all =>
      rw [translateOn, if_pos (handles_of_rules hrules _)]
      exact (demands_translateAll hdepth hparts {}).congr (allows_combine_iff hdepth) .rfl
    | any =>
      rw [translateOn, if_pos (handles_of_rules hrules _)]
      split
      · next hempty =>
        rw [List.isEmpty_iff, List.map_eq_nil_iff] at hempty
        subst hempty
        exact .met _ ((@allows_combine_iff t depth hdepth .any []).1 nofun) nofun rfl
      · exact ((demands_translateAny hdepth hparts).before fun clauses => ⟨_, rfl⟩).congr (allows_combine_iff hdepth)
          .rfl
  | @nested op pairs _ _ ih =>
    rw [translateOn, if_pos (handles_of_rules hrules _), Condition.writtenDays_nested_iff]
    refine (demands_descend hdepth fun hallowed => ?_).congr (allows_nested_iff hdepth) (and_iff_right trivial)
    rw [translateOperand]
    refine (demands_translatePairs (P := fun c => t.Allows (depth + 1) (c.depth 1))
      (Q := fun c => c.Has Condition.writtenDaysShape) (fun p hp field => ih p hp hallowed field) {}).before ?_
    intro fragment
    cases op with
    | find => exact ⟨_, rfl⟩
    | nfind => exact ⟨_, rfl⟩

/-! ## Filters -/

section Statements

variable {P Q : Condition → Prop}

/-- The alternatives of a statement demand what each condition of each of them does. -/
theorem demands_translateAlternatives {statement : List Query}
    (h : ∀ q ∈ statement, ∀ p ∈ q, ∀ field, (t.translateOn field 0 p.2).Demands t.tooDeep (P p.2) (Q p.2)) :
    (t.translateAlternatives (statement.map .query)).Demands t.tooDeep (∀ q ∈ statement, ∀ p ∈ q, P p.2)
      (∀ q ∈ statement, ∀ p ∈ q, Q p.2) := by
  induction statement with
  | nil => exact .met [] nofun nofun rfl
  | cons q rest ih =>
    rw [List.map_cons, translateAlternatives, translateQuery, translateOperand]
    refine ((demands_translatePairs (h q (.head _)) {}).bind fun _ fragment _ =>
      (ih fun r hr => h r (.tail _ hr)).before fun fragments => ⟨_, rfl⟩).congr ?_ ?_
    · rw [List.forall_mem_cons]
    · rw [List.forall_mem_cons]

/-- The statements of given queries demand what each condition of each of them does. -/
theorem demands_translateEach {statements : List (List Query)}
    (h : ∀ statement ∈ statements, ∀ q ∈ statement, ∀ p ∈ q, ∀ field,
      (t.translateOn field 0 p.2).Demands t.tooDeep (P p.2) (Q p.2)) :
    (t.translateEach (Filter.statementsOf statements)).Demands t.tooDeep
      (∀ statement ∈ statements, ∀ q ∈ statement, ∀ p ∈ q, P p.2)
      (∀ statement ∈ statements, ∀ q ∈ statement, ∀ p ∈ q, Q p.2) := by
  induction statements with
  | nil => exact .met [] nofun nofun rfl
  | cons statement rest ih =>
    rw [Filter.statementsOf, List.map_cons, translateEach, ← Filter.statementsOf]
    refine ((demands_translateAlternatives (h statement (.head _))).bind fun _ fragments _ =>
      (ih fun other hother => h other (.tail _ hother)).before fun clauses => ⟨_, rfl⟩).congr ?_ ?_
    · rw [List.forall_mem_cons]
    · rw [List.forall_mem_cons]

end Statements

/-- A sort is translated when the names in it have texts. -/
theorem result_translateSort (t : Translator) {f : Filter} (houter : f.sortField.plainText.isSome = true)
    (hinner : f.subProp.plainText.isSome = true) : ∃ sort, (t.translateSort f).result = .ok sort := by
  obtain ⟨outer, houter⟩ := Option.isSome_iff_exists.1 houter
  obtain ⟨inner, hinner⟩ := Option.isSome_iff_exists.1 hinner
  obtain ⟨name, hname⟩ : ∃ name, (t.sortName f.sortField).result = .ok name := by
    unfold sortName
    split
    · exact ⟨_, rfl⟩
    · rw [houter]
      exact ⟨_, rfl⟩
  have hprimary : ∃ clause, (t.primarySort f).result = .ok clause := by
    unfold primarySort
    split
    · simp only [houter, hinner, Fault.ofWriting_some]
      rw [Logged.result_bind (Logged.result_ofResult _), Logged.result_bind (Logged.result_ofResult _),
        Logged.result_bind (result_apply _ _), Logged.result_bind hname, Logged.result_bind (result_apply _ _)]
      exact ⟨_, rfl⟩
    · rw [Logged.result_bind hname]
      exact ⟨_, rfl⟩
  obtain ⟨clause, hclause⟩ := hprimary
  unfold translateSort
  dsimp only
  split
  · rw [Logged.result_bind hclause]
    exact ⟨_, rfl⟩
  · exact ⟨_, rfl⟩

end Translator

/-! ## Bare memberships -/

/-- A condition with a membership at a depth whose query has no conditions. -/
inductive Condition.BareAt : Nat → Condition → Prop where
  | here (op : Membership) : BareAt 0 (.nested op (.query []))
  | member {n : Nat} {op : Combinator} {members : List Condition} {c : Condition} :
      c ∈ members → BareAt n c → BareAt (n + 1) (.combine op (members.map .condition))
  | inside {n : Nat} {op : Membership} {pairs : Query} {p : String × Condition} :
      p ∈ pairs → BareAt n p.2 → BareAt (n + 1) (.nested op (.query pairs))

/-- The conditions of the queries of a filter. -/
def Filter.conditions (f : Filter) : List Condition :=
  f.statements.flatten.flatMap fun
    | .query q => q.map (·.2)
    | _ => []

namespace Condition

/-- The parts of a combinator are where its bare memberships stand. -/
theorem bareAt_combine_iff {n : Nat} {op : Combinator} {members : List Condition} :
    (combine op (members.map .condition)).BareAt n ↔ ∃ m, n = m + 1 ∧ ∃ c ∈ members, c.BareAt m := by
  refine ⟨?_, ?_⟩
  · intro h
    generalize hvalues : members.map Value.condition = values at h
    cases h with
    | @member m _ _ c hc hbare =>
      obtain rfl := List.map_injective_iff.2 (fun _ _ => Value.condition.inj) hvalues
      exact ⟨m, rfl, c, hc, hbare⟩
  · rintro ⟨m, rfl, c, hc, hbare⟩
    exact .member hc hbare

/-- A membership is bare itself, or its bare memberships stand in the conditions of its query. -/
theorem bareAt_nested_iff {n : Nat} {op : Membership} {pairs : Query} :
    (nested op (.query pairs)).BareAt n ↔ n = 0 ∧ pairs = [] ∨ ∃ m, n = m + 1 ∧ ∃ p ∈ pairs, p.2.BareAt m := by
  refine ⟨?_, ?_⟩
  · intro h
    cases h with
    | here => exact .inl ⟨rfl, rfl⟩
    | @inside m _ _ p hp hbare => exact .inr ⟨m, rfl, p, hp, hbare⟩
  · rintro (⟨rfl, rfl⟩ | ⟨m, rfl, p, hp, hbare⟩)
    · exact .here op
    · exact .inside hp hbare

/-- Of a condition no deeper than a limit, only a bare membership at the limit goes beyond it when bare queries count as
a level. -/
theorem depth_le_iff_not_bareAt {s : Shape} {c : Condition} (hc : c.Has s) {n : Nat} (h : c.depth 0 ≤ n) :
    c.depth 1 ≤ n ↔ ¬c.BareAt n := by
  induction hc generalizing n with
  | compare _ => exact iff_of_true (Nat.zero_le n) nofun
  | @combine op members _ _ ih =>
    have hdepth := depth_combine_le.1 h
    rw [depth_combine_le, bareAt_combine_iff]
    constructor
    · rintro hall ⟨m, rfl, c, hc, hbare⟩
      exact (ih c hc (Nat.le_of_lt_succ (hdepth c hc))).1 (Nat.le_of_lt_succ (hall c hc)) hbare
    · intro hnone c hc
      obtain ⟨m, rfl⟩ := Nat.exists_eq_succ_of_ne_zero (Nat.ne_zero_of_lt (hdepth c hc))
      exact Nat.lt_succ_of_le ((ih c hc (Nat.le_of_lt_succ (hdepth c hc))).2 fun hbare => hnone ⟨m, rfl, c, hc, hbare⟩)
  | @nested op pairs _ _ ih =>
    have hdepth := (depth_nested_le.1 h).2
    rw [depth_nested_le, bareAt_nested_iff]
    constructor
    · rintro ⟨hlevel, hall⟩ (⟨rfl, -⟩ | ⟨m, rfl, p, hp, hbare⟩)
      · exact absurd hlevel (by decide)
      · exact (ih p hp (Nat.le_of_lt_succ (hdepth p hp))).1 (Nat.le_of_lt_succ (hall p hp)) hbare
    · intro hnone
      have hlevel : 1 ≤ n := by
        by_contra hzero
        obtain rfl : n = 0 := by omega
        refine hnone (.inl ⟨rfl, List.eq_nil_iff_forall_not_mem.2 fun p hp => ?_⟩)
        exact Nat.not_lt_zero _ (hdepth p hp)
      obtain ⟨m, rfl⟩ := Nat.exists_eq_succ_of_ne_zero (Nat.ne_zero_of_lt hlevel)
      refine ⟨hlevel, fun p hp => Nat.lt_succ_of_le ?_⟩
      exact (ih p hp (Nat.le_of_lt_succ (hdepth p hp))).2 fun hbare => hnone (.inr ⟨m, rfl, p, hp, hbare⟩)

/-- A bare query counts for one level at most. -/
theorem depth_one_le {s : Shape} {c : Condition} (hc : c.Has s) : c.depth 1 ≤ c.depth 0 + 1 := by
  induction hc with
  | compare _ => exact Nat.zero_le _
  | @combine op members _ _ ih =>
    refine depth_combine_le.2 fun c hc => ?_
    have hlt : c.depth 0 < _ := depth_lt_of_mem op hc
    have hle := ih c hc
    omega
  | @nested op pairs _ _ ih =>
    refine depth_nested_le.2 ⟨Nat.succ_pos _, fun p hp => ?_⟩
    have hlt : p.2.depth 0 < _ := depth_lt_of_mem_query op hp
    have hle := ih p hp
    omega

end Condition

/-! ## Filters that are read -/

/-- Conditions of any operands, members and fields. -/
def anyShape : Shape :=
  { field := fun _ => True }

/-- A filter of a form to be translated: its alternatives are queries, their conditions are built from parts of the
right kind, its limit is a whole number, and the names in its sort have texts. -/
structure Filter.IsFormed (f : Filter) : Prop where
  statements : ∃ statements, f.statements = statementsOf statements ∧
    ∀ statement ∈ statements, ∀ q ∈ statement, Query.Has anyShape q
  limit : ∃ n : Int, f.limit = .int n
  sortField : f.sortField.plainText.isSome = true
  subProp : f.subProp.plainText.isSome = true

/-- Whether a filter can be written in a search body: its relative dates have texts. -/
def Filter.IsWritten (f : Filter) : Prop :=
  ∀ c ∈ f.conditions, c.Has Condition.writtenDaysShape

namespace Filter

variable {o : DecodeOptions} {f : Filter}

theorem mem_conditions {statements : List (List Query)} (hf : f.statements = statementsOf statements) {c : Condition} :
    c ∈ f.conditions ↔ ∃ statement ∈ statements, ∃ q ∈ statement, ∃ p ∈ q, p.2 = c := by
  simp [conditions, hf, statementsOf, List.mem_flatMap, and_assoc]

theorem forall_mem_conditions {statements : List (List Query)} (hf : f.statements = statementsOf statements)
    {P : Condition → Prop} :
    (∀ c ∈ f.conditions, P c) ↔ ∀ statement ∈ statements, ∀ q ∈ statement, ∀ p ∈ q, P p.2 := by
  simp only [mem_conditions hf]
  constructor
  · intro h statement hstatement q hq p hp
    exact h p.2 ⟨statement, hstatement, q, hq, p, hp, rfl⟩
  · rintro h c ⟨statement, hstatement, q, hq, p, hp, rfl⟩
    exact h statement hstatement q hq p hp

/-- The conditions of an accepted filter are built from what is read, and nested no deeper than allowed. -/
theorem Accepted.of_mem_conditions (hf : f.Accepted o) {c : Condition} (hc : c ∈ f.conditions) :
    c.Has Condition.acceptedShape ∧ (c.depth 0 : Int) ≤ o.maxDepth := by
  obtain ⟨statements, hstatements, hpairs⟩ := hf.statements
  obtain ⟨statement, hstatement, q, hq, p, hp, rfl⟩ := (mem_conditions hstatements).1 hc
  have hcondition := (hpairs statement hstatement q hq p hp).condition
  exact ⟨hcondition.has, hcondition.depth_le⟩

/-- An accepted filter is of a form to be translated. -/
theorem Accepted.isFormed (hf : f.Accepted o) : f.IsFormed := by
  obtain ⟨statements, hstatements, hpairs⟩ := hf.statements
  obtain ⟨n, -, hlimit⟩ := hf.limit
  refine ⟨⟨statements, hstatements, fun statement hstatement q hq p hp => ⟨trivial, ?_⟩⟩, ⟨n, hlimit⟩,
    hf.sortField.isSome_plainText, hf.subProp.isSome_plainText⟩
  exact (hpairs statement hstatement q hq p hp).condition.has.mono (fun _ _ _ => trivial) (fun _ _ => trivial)
    fun _ _ _ => trivial

end Filter

namespace Translator

variable {t : Translator} {o : DecodeOptions}

/-- A filter of a form to be translated demands that none of its conditions is nested too deeply, a bare query counting
as a level, and that it can be written. -/
theorem demands_build_formed (hrules : t.rules = Rule.every) {f : Filter} (hf : f.IsFormed)
    (hdepth : ∀ c ∈ f.conditions, 0 ≤ t.maxDepth) :
    (t.build f).Demands t.tooDeep (∀ c ∈ f.conditions, (c.depth 1 : Int) ≤ t.maxDepth) f.IsWritten := by
  obtain ⟨statements, hstatements, hqueries⟩ := hf.statements
  obtain ⟨n, hlimit⟩ := hf.limit
  have hconditions : ∀ statement ∈ statements, ∀ q ∈ statement, ∀ p ∈ q, ∀ field,
      (t.translateOn field 0 p.2).Demands t.tooDeep (t.Allows 0 (p.2.depth 1))
        (p.2.Has Condition.writtenDaysShape) := by
    intro statement hstatement q hq p hp field
    have hle := (Filter.forall_mem_conditions hstatements).1 hdepth statement hstatement q hq p hp
    refine demands_translateOn hrules (hqueries statement hstatement q hq p hp).2 ?_ field
    unfold Allows
    omega
  have htranslate : (t.translateStatements f.statements).Demands t.tooDeep
      (∀ statement ∈ statements, ∀ q ∈ statement, ∀ p ∈ q, t.Allows 0 (p.2.depth 1))
      (∀ statement ∈ statements, ∀ q ∈ statement, ∀ p ∈ q, p.2.Has Condition.writtenDaysShape) := by
    rw [hstatements, translateStatements_eq]
    exact (demands_translateEach (P := fun c => t.Allows 0 (c.depth 1)) (Q := fun c => c.Has Condition.writtenDaysShape)
      hconditions).before fun clauses => ⟨_, rfl⟩
  refine (htranslate.before fun query => ?_).congr ?_ ?_
  · obtain ⟨sort, hsort⟩ := result_translateSort t hf.sortField hf.subProp
    rw [Logged.result_bind hsort, hlimit]
    exact ⟨_, rfl⟩
  · rw [Filter.forall_mem_conditions hstatements]
    simp only [Allows, Int.natCast_zero, Int.zero_add]
  · rw [Filter.IsWritten, Filter.forall_mem_conditions hstatements]

/-- An accepted filter demands that none of its conditions is nested too deeply, a bare query counting as a level, and
that it can be written. -/
theorem demands_build_accepted (hrules : t.rules = Rule.every) (hdepth : o.maxDepth ≤ t.maxDepth) {f : Filter}
    (hf : f.Accepted o) :
    (t.build f).Demands t.tooDeep (∀ c ∈ f.conditions, (c.depth 1 : Int) ≤ t.maxDepth) f.IsWritten := by
  refine demands_build_formed hrules hf.isFormed fun c hc => ?_
  have hle := (hf.of_mem_conditions hc).2
  omega

/-- What is read as a filter within a depth, and can be written, is translated when one level more is allowed. -/
theorem build_decoded_of_lt (hrules : t.rules = Rule.every) (hdepth : o.maxDepth < t.maxDepth) {data : Value}
    (hdata : data.IsJson) {f : Filter} (h : (Filter.decode o data).result = .ok f) (hwritten : f.IsWritten) :
    ∃ body, (t.build f).result = .ok body := by
  have hf := Filter.accepted_of_decode hdata h
  refine (demands_build_accepted hrules (Int.le_of_lt hdepth) hf).succeeds_iff.2 ⟨fun c hc => ?_, hwritten⟩
  obtain ⟨hshape, hle⟩ := hf.of_mem_conditions hc
  have hone := Condition.depth_one_le hshape
  omega

/-- What is read as a filter within a depth is translated within the same depth exactly when no membership whose query
has no conditions stands at that very depth and the filter can be written. With such a membership it is refused as
nested too deeply; otherwise only a relative date that has no text keeps it from being translated. -/
theorem build_decoded (hrules : t.rules = Rule.every) (hdepth : t.maxDepth = o.maxDepth) {data : Value}
    (hdata : data.IsJson) {f : Filter} (h : (Filter.decode o data).result = .ok f) :
    ((∃ body, (t.build f).result = .ok body) ↔
        (∀ c ∈ f.conditions, ¬c.BareAt o.maxDepth.toNat) ∧ f.IsWritten) ∧
      ((∃ c ∈ f.conditions, c.BareAt o.maxDepth.toNat) → f.IsWritten → fitsLimit (o.maxDepth + 1) = true →
        (t.build f).result = .error (.nestedTooDeep (o.maxDepth + 1) o.maxDepth)) ∧
      ((∀ c ∈ f.conditions, ¬c.BareAt o.maxDepth.toNat) → ¬f.IsWritten →
        (t.build f).result = .error .integerUnwritable) := by
  have hf := Filter.accepted_of_decode hdata h
  have hbare : (∀ c ∈ f.conditions, (c.depth 1 : Int) ≤ t.maxDepth) ↔
      ∀ c ∈ f.conditions, ¬c.BareAt o.maxDepth.toNat := by
    refine forall₂_congr fun c hc => ?_
    obtain ⟨hshape, hle⟩ := hf.of_mem_conditions hc
    rw [← Condition.depth_le_iff_not_bareAt hshape (by omega), hdepth]
    omega
  have hbuild := (demands_build_accepted hrules (Int.le_of_eq hdepth.symm) hf).congr hbare .rfl
  refine ⟨hbuild.succeeds_iff, ?_, hbuild.unwritten_of⟩
  rintro ⟨c, hc, hat⟩ hwritten hfits
  have hle := (hf.of_mem_conditions hc).2
  rw [← hdepth] at hfits hle ⊢
  rw [hbuild.refused_of (fun hnone => hnone c hc hat) hwritten, tooDeep_eq (by omega) hfits]

/-- A collection with an element that has a given field. -/
def visitsData : Value :=
  Filter.soleData "visits" "find" (.list [.object [("field", .text "page"), ("op", .text "GTE"), ("value", .int 2)]])

theorem build_decoded_visits :
    ∃ f, (Filter.decode { maxDepth := 1 } visitsData).result = .ok f ∧
      ∃ body, (build { maxDepth := 1 } f).result = .ok body := by
  have hdata : visitsData.IsJson := by
    refine Filter.isJson_soleData (.list (List.forall_mem_singleton.2 (.object ?_)))
    simp only [List.forall_mem_cons, List.not_mem_nil, false_implies, implies_true, and_true]
    exact ⟨.text trivial, .text trivial, .int 2⟩
  have hdecode : (Filter.decode { maxDepth := 1 } visitsData).result =
      .ok { statements := Filter.statementsOf [[[("visits", .find [("page", .within .gte (.int 2))])]]] } :=
    Filter.result_decode rfl
  refine ⟨_, hdecode,
    (build_decoded (o := { maxDepth := 1 }) (t := { maxDepth := 1 }) rfl rfl hdata hdecode).1.2 ⟨?_, ?_⟩⟩
  · intro c hc
    obtain rfl := List.mem_singleton.1 hc
    rw [Condition.find, Condition.bareAt_nested_iff]
    rintro (⟨hzero, -⟩ | ⟨m, -, p, hp, hbare⟩)
    · exact absurd hzero (by decide)
    · obtain rfl := List.mem_singleton.1 hp
      cases hbare
  · intro c hc
    obtain rfl := List.mem_singleton.1 hc
    rw [Condition.find, Condition.writtenDays_nested_iff]
    exact List.forall_mem_singleton.2 (.compare trivial)

/-- A bare membership at the greatest depth allowed is read, and is not translated. -/
theorem build_decoded_bare :
    (Filter.soleData "a" "FIND" (.list [])).IsJson ∧
      ∃ f, (Filter.decode { maxDepth := 0 } (Filter.soleData "a" "FIND" (.list []))).result = .ok f ∧
        (build { maxDepth := 0 } f).result = .error (.nestedTooDeep 1 0) := by
  refine ⟨Filter.isJson_soleData (.list nofun), { statements := Filter.statementsOf [[[("a", .find [])]]] },
    Filter.result_decode rfl, ?_⟩
  exact congrArg Except.error (tooDeep_eq (t := { maxDepth := 0 }) (by decide) (fitsLimit_of_lt (by decide)))

end Translator

end Winnow
