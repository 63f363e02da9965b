import Winnow.Proofs.Kinds

/-!
# Where the order of values is one

Not every two values have an order. Three values any two of which have one are in order as things in one line are
(`Value.composes_order`): scalars are of one kind then, or dates and times, and sequences are told apart by their first
unequal items. There values that have an order are equal exactly when it is that of equality
(`Value.same_iff_of_order`). So values any two of which have an order are in the order of marks (`Value.exists_marks`),
dates beyond the calendar and sequences included.
-/

namespace Winnow

/-! ## Orders of three -/

/-- The order of a first thing to a second, that of the second to a third, and that of the first to the third, as they
are when the three are in one line. -/
structure Ordering.Composes (o p q : Ordering) : Prop where
  left : o = .eq → q = p
  right : p = .eq → q = o
  both : o = p → q = o

theorem composes_compare {I : Type} [LinearOrder I] (a b c : I) :
    Ordering.Composes (compare a b) (compare b c) (compare a c) where
  left := by
    intro h
    rw [compare_eq_iff_eq.1 h]
  right := by
    intro h
    rw [compare_eq_iff_eq.1 h]
  both := by
    intro h
    cases hab : compare a b with
    | eq => rw [compare_eq_iff_eq.1 hab, ← h, hab]
    | lt => exact compare_lt_iff_lt.2 ((compare_lt_iff_lt.1 hab).trans (compare_lt_iff_lt.1 (h.symm.trans hab)))
    | gt => exact compare_gt_iff_gt.2 ((compare_gt_iff_gt.1 (h.symm.trans hab)).trans (compare_gt_iff_gt.1 hab))

/-! ## Scalars -/

namespace Value

/-- Whether a value is one value: neither null nor a sequence. -/
def IsSingle : Value → Prop
  | .null | .list _ | .tuple _ => False
  | _ => True

/-- Whether a value is a date and time whose offset leads out of the calendar. -/
def IsBeyond : Value → Prop
  | .datetime t => t.toInstant? = none
  | _ => False

variable {v : Value}

theorem IsSingle.ne_null (h : v.IsSingle) : v ≠ .null := by
  rintro rfl
  exact h

theorem IsSingle.elements (h : v.IsSingle) : v.elements = [v] := by
  cases v with
  | null | list | tuple => exact absurd h id
  | _ => rfl

theorem IsSingle.order (h : v.IsSingle) (w : Value) : v.order w = v.orderScalar w := by
  cases v with
  | null | list | tuple => exact absurd h id
  | _ => rfl

theorem IsBeyond.exists_datetime (h : v.IsBeyond) : ∃ t, v = .datetime t := by
  cases v with
  | datetime t => exact ⟨t, rfl⟩
  | _ => exact absurd h id

/-- Two numbers that have an order are compared with that answer. -/
theorem compare_of_orderQuantity {w : Value} {x y : Quantity} {o : Ordering}
    (h : v.orderQuantity w x y = .ok (some o)) : x.compare y = some o := by
  unfold orderQuantity at h
  split at h
  · next o' ho =>
    cases h
    exact ho
  · split at h <;> cases h

theorem order_of_known {order : Option Ordering} {o : Ordering} (h : orderScalar.known order = .ok (some o)) :
    order = some o := by
  cases order with
  | none => cases h
  | some o' =>
    cases h
    rfl

/-- A date and time is ordered with another one only, both with an offset or both without, and that by the clock of
universal time. -/
theorem orderScalar_datetime {t : DateTime} {w : Value} {o : Ordering}
    (h : (datetime t).orderScalar w = .ok (some o)) :
    ∃ u, w = .datetime u ∧ o = compare t.universalMicros u.universalMicros := by
  cases w with
  | datetime u =>
    have horder : t.order? u = some o := order_of_known h
    unfold DateTime.order? at horder
    split at horder
    · exact ⟨u, rfl, (Option.some.inj horder).symm⟩
    · cases horder
  | _ => cases h

end Value

/-- Numbers that are compared with an answer are not NaNs. -/
theorem Quantity.exists_mark {x y : Quantity} {o : Ordering} (h : x.compare y = some o) :
    (∃ a, x.mark? = some a) ∧ ∃ b, y.mark? = some b := by
  have hmark : ∀ z : Quantity, z ≠ .nan → ∃ a, z.mark? = some a := by
    intro z hz
    rcases z with _ | negative | _
    · exact ⟨_, rfl⟩
    · cases negative <;> exact ⟨_, rfl⟩
    · exact absurd rfl hz
  refine ⟨hmark x ?_, hmark y ?_⟩
  · rintro rfl
    cases h
  · rintro rfl
    rcases x with _ | negative | _
    · cases h
    · cases negative <;> cases h
    · cases h

namespace Kind

variable {v w : Value}

/-- Two scalars that have an order are of one kind, unless they are dates of which one is beyond the calendar. -/
theorem exists_read_of_orderScalar {o : Ordering} (h : v.orderScalar w = .ok (some o)) :
    (∃ (k : Kind) (a b : k.Mark), k.read v = some a ∧ k.read w = some b) ∨
      (v.isTemporal = true ∧ w.isTemporal = true ∧ (v.IsBeyond ∨ w.IsBeyond)) := by
  unfold Value.orderScalar at h
  split at h
  · next x y hx hy =>
    obtain ⟨⟨a, ha⟩, ⟨b, hb⟩⟩ := Quantity.exists_mark (Value.compare_of_orderQuantity h)
    exact .inl ⟨.number, a, b, Option.bind_eq_some_iff.2 ⟨x, hx, ha⟩, Option.bind_eq_some_iff.2 ⟨y, hy, hb⟩⟩
  · split at h
    · next s t hs ht => exact .inl ⟨.text, s, t, hs, ht⟩
    · split at h
      · next d e _ _ =>
        obtain ⟨i, hi⟩ := DateTime.exists_toInstant?_ofDate d
        obtain ⟨j, hj⟩ := DateTime.exists_toInstant?_ofDate e
        exact .inl ⟨.moment, i, j, hi, hj⟩
      · next t u _ _ =>
        cases ht : t.toInstant? with
        | none => exact .inr ⟨rfl, rfl, .inl ht⟩
        | some i =>
          cases hu : u.toInstant? with
          | none => exact .inr ⟨rfl, rfl, .inr hu⟩
          | some j => exact .inl ⟨.moment, i, j, ht, hu⟩
      · next t u _ _ =>
        have hzoned : t.offset?.isSome = u.offset?.isSome := by
          unfold ClockTime.order? at h
          split at h
          · next ht hu => rw [ht, hu]
          · next p q ht hu => rw [ht, hu, Option.isSome_some, Option.isSome_some]
          · cases h
        exact .inl ⟨.clock t.offset?.isSome, t.universalMicros, u.universalMicros, if_pos rfl, if_pos hzoned.symm⟩
      · next s t _ _ => exact .inl ⟨.uuid, s, t, rfl, rfl⟩
      · cases h

/-- The kind of a value, if it is of one. -/
def of? : Value → Option Kind
  | .bool _ | .int _ | .float _ | .decimal _ => some .number
  | .text _ | .operator _ | .direction _ => some .text
  | .date _ | .datetime _ => some .moment
  | .time t => some (.clock t.offset?.isSome)
  | .uuid _ => some .uuid
  | _ => none

theorem of?_of_read {k : Kind} {a : k.Mark} (h : k.read v = some a) : of? v = some k := by
  cases k with
  | clock zoned =>
    obtain ⟨t, rfl, rfl, -⟩ := eq_time_of_read h
    rfl
  | number | text | moment | uuid => cases v <;> first | rfl | cases h

/-- A value is of one kind only. -/
theorem eq_of_read {k l : Kind} {a : k.Mark} {b : l.Mark} (hk : k.read v = some a) (hl : l.read v = some b) : k = l :=
  Option.some.inj ((of?_of_read hk).symm.trans (of?_of_read hl))

/-- A value of a kind is neither null nor a sequence. -/
theorem isSingle_of_read {k : Kind} {a : k.Mark} (h : k.read v = some a) : v.IsSingle := by
  cases v with
  | null | list | tuple => cases k <;> cases h
  | _ => trivial

/-- Two scalars that have an order are dates and times, ordered by the clock of universal time, or they are of one kind
and in the order of their marks. -/
theorem orderScalar_cases {o : Ordering} (h : v.orderScalar w = .ok (some o)) :
    (∃ t u, v = .datetime t ∧ w = .datetime u ∧ o = compare t.universalMicros u.universalMicros) ∨
      (∀ t, v ≠ .datetime t) ∧ (∀ u, w ≠ .datetime u) ∧
        ∃ (k : Kind) (a b : k.Mark), k.read v = some a ∧ k.read w = some b ∧ o = compare a b := by
  by_cases hv : ∃ t, v = .datetime t
  · obtain ⟨t, rfl⟩ := hv
    obtain ⟨u, hu, ho⟩ := Value.orderScalar_datetime h
    exact .inl ⟨t, u, rfl, hu, ho⟩
  · have hv : ∀ t, v ≠ .datetime t := fun t ht => hv ⟨t, ht⟩
    have hw : ∀ u, w ≠ .datetime u := by
      rintro u rfl
      cases v with
      | datetime t => exact hv t rfl
      | _ => cases h
    have hwithin {x : Value} (hx : ∀ t, x ≠ .datetime t) : ¬x.IsBeyond := by
      intro hbeyond
      obtain ⟨t, ht⟩ := hbeyond.exists_datetime
      exact hx t ht
    rcases exists_read_of_orderScalar h with ⟨k, a, b, ha, hb⟩ | ⟨-, -, hbeyond | hbeyond⟩
    · have horder : orderOf v w = .ok (some o) := by
        rw [orderOf, (isSingle_of_read ha).order, h]
        rfl
      exact .inr ⟨hv, hw, k, a, b, ha, hb, orderOf_eq ha hb horder⟩
    · exact absurd hbeyond (hwithin hv)
    · exact absurd hbeyond (hwithin hw)

/-- The orders of three scalars are those of three things in one line. -/
theorem composes_orderScalar {u : Value} {o p q : Ordering} (hvw : v.orderScalar w = .ok (some o))
    (hwu : w.orderScalar u = .ok (some p)) (hvu : v.orderScalar u = .ok (some q)) : Ordering.Composes o p q := by
  rcases orderScalar_cases hvw with ⟨t, s, rfl, rfl, rfl⟩ | ⟨hv, hw, k, a, b, ha, hb, rfl⟩
  · obtain ⟨r, rfl, rfl⟩ := Value.orderScalar_datetime hwu
    obtain ⟨r', hr, rfl⟩ := Value.orderScalar_datetime hvu
    cases hr
    exact composes_compare ..
  · rcases orderScalar_cases hwu with ⟨t, -, ht, -⟩ | ⟨-, -, l, b', c, hb', hc, rfl⟩
    · exact absurd ht (hw t)
    · obtain rfl := eq_of_read hb hb'
      obtain rfl := Option.some.inj (hb.symm.trans hb')
      rcases orderScalar_cases hvu with ⟨t, -, ht, -⟩ | ⟨-, -, m, a', c', ha', hc', rfl⟩
      · exact absurd ht (hv t)
      · obtain rfl := eq_of_read ha ha'
        obtain rfl := Option.some.inj (ha.symm.trans ha')
        obtain rfl := Option.some.inj (hc.symm.trans hc')
        exact composes_compare ..

/-- A scalar that has an order with itself has that of equality. -/
theorem orderScalar_self {o : Ordering} (h : v.orderScalar v = .ok (some o)) : o = .eq := by
  rcases orderScalar_cases h with ⟨t, u, rfl, hu, rfl⟩ | ⟨-, -, k, a, b, ha, hb, rfl⟩
  · cases hu
    exact compare_eq_iff_eq.2 rfl
  · exact compare_eq_iff_eq.2 (Option.some.inj (ha.symm.trans hb))

/-- Scalars that have an order are neither null nor sequences. -/
theorem isSingle_of_orderScalar {o : Ordering} (h : v.orderScalar w = .ok (some o)) : v.IsSingle ∧ w.IsSingle := by
  rcases orderScalar_cases h with ⟨t, s, rfl, rfl, -⟩ | ⟨-, -, k, a, b, ha, hb, -⟩
  · exact ⟨trivial, trivial⟩
  · exact ⟨isSingle_of_read ha, isSingle_of_read hb⟩

end Kind

/-! ## Sequences -/

/-- What holds of null and of single values, and of a sequence when it holds of its items, holds of every value. -/
theorem Value.sequence_induction {P : Value → Prop} (null : P .null) (single : ∀ v : Value, v.IsSingle → P v)
    (list : ∀ items : List Value, (∀ v ∈ items, P v) → P (.list items))
    (tuple : ∀ items : List Value, (∀ v ∈ items, P v) → P (.tuple items)) : (v : Value) → P v
  | .null => null
  | .list items => list items fun v _ => v.sequence_induction null single list tuple
  | .tuple items => tuple items fun v _ => v.sequence_induction null single list tuple
  | .bool _ | .int _ | .float _ | .decimal _ | .text _ | .date _ | .datetime _ | .time _ | .uuid _ | .symbol _ _ _
  | .operator _ | .direction _ | .daysAgo _ | .object _ | .record _ | .condition _ | .query _ => single _ trivial
termination_by v => sizeOf v

/-- The values of a field are single values. -/
theorem Value.isSingle_of_mem_elements (v : Value) : ∀ w ∈ v.elements, w.IsSingle := by
  induction v using Value.sequence_induction with
  | null => exact nofun
  | single v hv =>
    rw [hv.elements]
    exact List.forall_mem_singleton.2 hv
  | list items hitems | tuple items hitems =>
    intro w hw
    obtain ⟨v, hv, hw⟩ := mem_elementsOfItems.1 hw
    exact hitems v hv w hw

/-! ## Equality and the order of equality -/

namespace Value

variable {v w : Value}

theorem orderText_eq_iff {s t : String} : orderText s t = .eq ↔ s = t := by
  unfold orderText
  split
  · next hlt => simp [hlt.ne]
  · split <;> simp_all

/-- Whether values like a given one have an order with some. -/
def IsOrderable : Value → Prop
  | .null | .symbol _ _ _ | .daysAgo _ | .object _ | .record _ | .condition _ | .query _ => False
  | _ => True

/-- Equal numbers have the order of equality. -/
theorem orderScalar_of_same_quantity {x y : Quantity} (hv : v.asQuantity? = some x) (hw : w.asQuantity? = some y)
    (h : v.sameScalar w = true) : v.orderScalar w = .ok (some .eq) := by
  simp only [sameScalar, hv, hw] at h
  have hcompare : x.compare y = some .eq := eq_of_beq h
  simp only [orderScalar, hv, hw, orderQuantity, hcompare]

/-- Equal texts have the order of equality. -/
theorem orderScalar_of_same_text {s t : String} (hnumber : v.asQuantity? = none) (hv : v.asText? = some s)
    (hw : w.asText? = some t) (h : v.sameScalar w = true) : v.orderScalar w = .ok (some .eq) := by
  simp only [sameScalar, hnumber, hv, hw] at h
  simp only [orderScalar, hnumber, hv, hw, orderText_eq_iff.2 (eq_of_beq h)]

/-- Equal scalars have the order of equality, if values like them have an order at all. -/
theorem orderScalar_of_sameScalar (horderable : v.IsOrderable ∨ w.IsOrderable) (h : v.sameScalar w = true) :
    v.orderScalar w = .ok (some .eq) := by
  cases v with
  | bool | int | float | decimal =>
    cases w with
    | bool | int | float | decimal => exact orderScalar_of_same_quantity rfl rfl h
    | _ => cases h
  | text | operator | direction =>
    cases w with
    | text | operator | direction => exact orderScalar_of_same_text rfl rfl rfl h
    | _ => cases h
  | date d =>
    cases w with
    | date e =>
      obtain rfl : d = e := eq_of_beq h
      exact congrArg (fun order => Except.ok (some order)) (compare_eq_iff_eq.2 rfl)
    | _ => cases h
  | datetime t =>
    cases w with
    | datetime u => exact congrArg orderScalar.known (eq_of_beq h)
    | _ => cases h
  | time t =>
    cases w with
    | time u => exact congrArg orderScalar.known (eq_of_beq h)
    | _ => cases h
  | uuid s =>
    cases w with
    | uuid t => exact congrArg (fun order => Except.ok (some order)) (orderText_eq_iff.2 (eq_of_beq h))
    | _ => cases h
  | null | symbol | daysAgo =>
    cases w with
    | null | symbol | daysAgo => exact horderable.elim False.elim False.elim
    | _ => cases h
  | list | tuple | object | record | condition | query => cases h

/-- A value that has an order with another is like those that have one, and so is the other. -/
theorem isOrderable_of_order {o : Ordering} (h : v.order w = .ok (some o)) : v.IsOrderable ∧ w.IsOrderable := by
  have hread {x : Value} {k : Kind} {a : k.Mark} (hx : k.read x = some a) : x.IsOrderable := by
    cases x with
    | null | symbol | daysAgo | object | record | condition | query => cases k <;> cases hx
    | _ => trivial
  by_cases hv : v.IsSingle
  · rcases Kind.orderScalar_cases ((hv.order w).symm.trans h) with ⟨t, s, rfl, rfl, -⟩ | ⟨-, -, k, a, b, ha, hb, -⟩
    · exact ⟨trivial, trivial⟩
    · exact ⟨hread ha, hread hb⟩
  · cases v with
    | list | tuple =>
      cases w with
      | list | tuple => exact ⟨trivial, trivial⟩
      | _ => cases h
    | null => cases h
    | _ => exact absurd trivial hv

theorem same?_eq_some {answer : Bool} (h : v.same? w = some answer) : v.signals w = false ∧ v.same w = answer := by
  unfold same? at h
  split at h
  · cases h
  · next hsignals => exact ⟨Bool.eq_false_iff.2 hsignals, Option.some.inj h⟩

end Value

theorem length_of_sameItems : (items items' : List Value) → sameItems items items' = true →
    items.length = items'.length
  | [], [], _ => rfl
  | _ :: rest, _ :: rest', h =>
    congrArg (· + 1) (length_of_sameItems rest rest' (Bool.and_eq_true_iff.1 h).2)

/-- Equal sequences have the order of equality. -/
theorem orderItems_of_sameItems : (items items' : List Value) → sameItems items items' = true →
    signalsItems items items' = false → orderItems items items' = .ok (some .eq)
  | [], [], _, _ => rfl
  | v :: rest, w :: rest', hsame, hsignals => by
    obtain ⟨hhead, htail⟩ := Bool.and_eq_true_iff.1 hsame
    rw [signalsItems, hhead, Bool.true_and, Bool.or_eq_false_iff] at hsignals
    have htest : v.same? w = some true := by
      rw [Value.same?, hsignals.1, hhead]
      rfl
    rw [orderItems, htest]
    exact orderItems_of_sameItems rest rest' htail hsignals.2

/-- Equal values have the order of equality, if values like them have an order at all. -/
theorem Value.order_of_same? {v w : Value} (h : v.same? w = some true) (horderable : v.IsOrderable ∨ w.IsOrderable) :
    v.order w = .ok (some .eq) := by
  obtain ⟨hsignals, hsame⟩ := same?_eq_some h
  cases v with
  | list items =>
    cases w with
    | list items' =>
      have hlength : items.length = items'.length := length_of_sameItems items items' hsame
      change (items.length == items'.length && signalsItems items items') = false at hsignals
      rw [hlength, beq_self_eq_true, Bool.true_and] at hsignals
      exact orderItems_of_sameItems items items' hsame hsignals
    | _ => cases hsame
  | tuple items =>
    cases w with
    | tuple items' => exact orderItems_of_sameItems items items' hsame hsignals
    | _ => cases hsame
  | object =>
    cases w with
    | object => exact horderable.elim False.elim False.elim
    | _ => cases hsame
  | record =>
    cases w with
    | record => exact horderable.elim False.elim False.elim
    | _ => cases hsame
  | condition =>
    cases w with
    | condition => exact horderable.elim False.elim False.elim
    | _ => cases hsame
  | query =>
    cases w with
    | query => exact horderable.elim False.elim False.elim
    | _ => cases hsame
  | _ => exact orderScalar_of_sameScalar horderable hsame

/-- Two sequences are ordered by their first items where these differ, and else by what is behind them. -/
theorem orderItems_cons {v w : Value} {rest rest' : List Value} {o : Ordering}
    (h : orderItems (v :: rest) (w :: rest') = .ok (some o)) :
    v.same? w = some true ∧ orderItems rest rest' = .ok (some o) ∨
      v.same? w = some false ∧ v.order w = .ok (some o) := by
  rw [orderItems] at h
  cases hsame : v.same? w with
  | none =>
    rw [hsame] at h
    cases h
  | some answer =>
    rw [hsame] at h
    cases answer with
    | true => exact .inl ⟨rfl, h⟩
    | false => exact .inr ⟨rfl, h⟩

/-- Two single values that have an order are equal exactly when it is that of equality. -/
theorem Value.IsSingle.same_iff_of_order {v w : Value} (hv : v.IsSingle) {o : Ordering}
    (h : v.order w = .ok (some o)) : v.same w = true ↔ o = .eq := by
  rw [hv.order] at h
  rcases Kind.orderScalar_cases h with ⟨t, u, rfl, rfl, -⟩ | ⟨hdatetime, -, k, a, b, ha, hb, ho⟩
  · show (t.order? u == some .eq) = true ↔ o = .eq
    rw [order_of_known h, beq_iff_eq, Option.some_inj]
  · by_cases hk : k = .moment
    · subst hk
      cases v with
      | date d =>
        cases w with
        | date e =>
          obtain rfl : compare d.ordinal e.ordinal = o := Option.some.inj (Except.ok.inj h)
          rw [compare_eq_iff_eq]
          show (d == e) = true ↔ d.ordinal = e.ordinal
          rw [beq_iff_eq]
          exact ⟨congrArg Date.ordinal, Date.ordinal_inj⟩
        | _ => cases h
      | datetime t => exact absurd rfl (hdatetime t)
      | _ => cases ha
    · rw [(same?_eq_some (Kind.agree_of_read hk ha hb).same).2, ho, compare_eq_iff_eq, decide_eq_true_iff]

/-- Sequences that have an order are equal exactly when it is that of equality, if that is so of their items. -/
theorem sameItems_iff_of_order {items items' : List Value} {o : Ordering}
    (hitems : ∀ v ∈ items, ∀ (w : Value) (o : Ordering), v.order w = .ok (some o) → (v.same w = true ↔ o = .eq))
    (h : orderItems items items' = .ok (some o)) : sameItems items items' = true ↔ o = .eq := by
  induction items generalizing items' with
  | nil =>
    cases items' with
    | nil =>
      cases h
      exact ⟨fun _ => rfl, fun _ => rfl⟩
    | cons w rest' =>
      cases h
      exact ⟨nofun, nofun⟩
  | cons v rest ih =>
    cases items' with
    | nil =>
      cases h
      exact ⟨nofun, nofun⟩
    | cons w rest' =>
      rw [List.forall_mem_cons] at hitems
      rw [sameItems]
      rcases orderItems_cons h with ⟨hsame, h⟩ | ⟨hsame, h⟩
      · rw [(Value.same?_eq_some hsame).2, Bool.true_and]
        exact ih hitems.2 h
      · rw [← hitems.1 w o h, (Value.same?_eq_some hsame).2, Bool.false_and]

/-- Two values that have an order are equal exactly when it is that of equality. -/
theorem Value.same_iff_of_order (v : Value) :
    ∀ (w : Value) (o : Ordering), v.order w = .ok (some o) → (v.same w = true ↔ o = .eq) := by
  induction v using Value.sequence_induction with
  | null =>
    intro w o h
    cases h
  | single v hv =>
    intro w o h
    exact hv.same_iff_of_order h
  | list items hitems =>
    intro w o h
    cases w with
    | list items' => exact sameItems_iff_of_order hitems h
    | _ => cases h
  | tuple items hitems =>
    intro w o h
    cases w with
    | tuple items' => exact sameItems_iff_of_order hitems h
    | _ => cases h

/-! ## The orders of three values -/

/-- A sequence that has an order with itself has that of equality, if that is so of its items. -/
theorem orderItems_self {items : List Value} {o : Ordering}
    (hitems : ∀ v ∈ items, ∀ o : Ordering, v.order v = .ok (some o) → o = .eq)
    (h : orderItems items items = .ok (some o)) : o = .eq := by
  induction items with
  | nil =>
    cases h
    rfl
  | cons v rest ih =>
    rw [List.forall_mem_cons] at hitems
    rcases orderItems_cons h with ⟨-, h⟩ | ⟨-, h⟩
    · exact ih hitems.2 h
    · exact hitems.1 o h

/-- A value that has an order with itself has that of equality. -/
theorem Value.order_self (v : Value) : ∀ o : Ordering, v.order v = .ok (some o) → o = .eq := by
  induction v using Value.sequence_induction with
  | null =>
    intro o h
    cases h
  | single v hv =>
    intro o h
    exact Kind.orderScalar_self ((hv.order v).symm.trans h)
  | list items hitems => exact fun o h => orderItems_self hitems h
  | tuple items hitems => exact fun o h => orderItems_self hitems h

namespace Ordering.Composes

variable {o p q : Ordering}

theorem of_left_ne (ho : o ≠ .eq) : Ordering.Composes o p o :=
  ⟨fun h => absurd h ho, fun _ => rfl, fun _ => rfl⟩

theorem of_right_ne (hp : p ≠ .eq) : Ordering.Composes o p p :=
  ⟨fun _ => rfl, fun h => absurd h hp, fun h => h.symm⟩

theorem of_ne (ho : o ≠ .eq) (hp : p ≠ .eq) (h : o ≠ p) : Ordering.Composes o p q :=
  ⟨fun heq => absurd heq ho, fun heq => absurd heq hp, fun heq => absurd heq h⟩

end Ordering.Composes

/-- Sequences are in the order of their first items, or of what is behind them where that is the one of equality, if
values like either of the items have an order at all. -/
theorem orderItems_cons_of_isOrderable {v w : Value} {rest rest' : List Value} {o : Ordering}
    (horderable : v.IsOrderable ∨ w.IsOrderable) (h : orderItems (v :: rest) (w :: rest') = .ok (some o)) :
    ∃ first, v.order w = .ok (some first) ∧
      (first = .eq ∧ orderItems rest rest' = .ok (some o) ∨ first ≠ .eq ∧ o = first) := by
  rcases orderItems_cons h with ⟨hsame, h⟩ | ⟨hsame, h⟩
  · exact ⟨.eq, Value.order_of_same? hsame horderable, .inl ⟨rfl, h⟩⟩
  · refine ⟨o, h, .inr ⟨fun ho => ?_, rfl⟩⟩
    have htrue := (v.same_iff_of_order w o h).2 ho
    rw [(Value.same?_eq_some hsame).2] at htrue
    cases htrue

/-- The orders of three sequences are those of three things in one line, if that is so of the orders of their first
items, and of the orders of what is behind these. -/
theorem composes_orderItems_cons {x y z : Value} {xs ys zs : List Value} {o p q : Ordering}
    (hfirst : ∀ o p q : Ordering, x.order y = .ok (some o) → y.order z = .ok (some p) → x.order z = .ok (some q) →
      Ordering.Composes o p q)
    (hrest : orderItems xs ys = .ok (some o) → orderItems ys zs = .ok (some p) → orderItems xs zs = .ok (some q) →
      Ordering.Composes o p q)
    (hxy : orderItems (x :: xs) (y :: ys) = .ok (some o)) (hyz : orderItems (y :: ys) (z :: zs) = .ok (some p))
    (hxz : orderItems (x :: xs) (z :: zs) = .ok (some q)) : Ordering.Composes o p q := by
  by_cases horderable : x.IsOrderable
  · obtain ⟨a, ha, hxy⟩ := orderItems_cons_of_isOrderable (.inl horderable) hxy
    obtain ⟨b, hb, hyz⟩ := orderItems_cons_of_isOrderable (.inl (Value.isOrderable_of_order ha).2) hyz
    obtain ⟨c, hc, hxz⟩ := orderItems_cons_of_isOrderable (.inl horderable) hxz
    have habc := hfirst a b c ha hb hc
    rcases hxy with ⟨rfl, hxy⟩ | ⟨hne, rfl⟩
    · obtain rfl := habc.left rfl
      rcases hyz with ⟨rfl, hyz⟩ | ⟨hne, rfl⟩
      · exact hrest hxy hyz (hxz.resolve_right fun h => h.1 rfl).2
      · rw [(hxz.resolve_left fun h => hne h.1).2]
        exact .of_right_ne hne
    · rcases hyz with ⟨rfl, -⟩ | ⟨hne', rfl⟩
      · obtain rfl := habc.right rfl
        rw [(hxz.resolve_left fun h => hne h.1).2]
        exact .of_left_ne hne
      · rcases hxz with ⟨rfl, -⟩ | ⟨-, rfl⟩
        · exact .of_ne hne hne' fun heq => hne (habc.both heq).symm
        · exact habc
  -- Only what can have an order differs at the first items; the first of the three items cannot, and equals the others.
  · rcases orderItems_cons hxy with ⟨hsame, hxy⟩ | ⟨-, hxy⟩
    · rcases orderItems_cons hyz with ⟨-, hyz⟩ | ⟨-, hyz⟩
      · rcases orderItems_cons hxz with ⟨-, hxz⟩ | ⟨-, hxz⟩
        · exact hrest hxy hyz hxz
        · exact absurd (Value.isOrderable_of_order hxz).1 horderable
      · have hx := Value.order_of_same? hsame (.inr (Value.isOrderable_of_order hyz).1)
        exact absurd (Value.isOrderable_of_order hx).1 horderable
    · exact absurd (Value.isOrderable_of_order hxy).1 horderable

/-- The orders of three sequences are those of three things in one line, if that is so of the orders of their items. -/
theorem composes_orderItems {xs ys zs : List Value} {o p q : Ordering}
    (hitems : ∀ x ∈ xs, ∀ (y z : Value) (o p q : Ordering), x.order y = .ok (some o) → y.order z = .ok (some p) →
      x.order z = .ok (some q) → Ordering.Composes o p q)
    (hxy : orderItems xs ys = .ok (some o)) (hyz : orderItems ys zs = .ok (some p))
    (hxz : orderItems xs zs = .ok (some q)) : Ordering.Composes o p q := by
  induction xs generalizing ys zs with
  | nil =>
    cases ys with
    | nil =>
      cases hxy
      obtain rfl : p = q := Option.some.inj (Except.ok.inj (hyz.symm.trans hxz))
      exact ⟨fun _ => rfl, fun h => h, fun h => h.symm⟩
    | cons y ys =>
      cases hxy
      cases zs with
      | nil =>
        cases hyz
        exact .of_ne nofun nofun nofun
      | cons z zs =>
        cases hxz
        exact .of_left_ne nofun
  | cons x xs ih =>
    cases ys with
    | nil =>
      cases hxy
      cases zs with
      | nil =>
        cases hxz
        exact .of_left_ne nofun
      | cons z zs =>
        cases hyz
        exact .of_ne nofun nofun nofun
    | cons y ys =>
      cases zs with
      | nil =>
        cases hyz
        cases hxz
        exact .of_right_ne nofun
      | cons z zs =>
        rw [List.forall_mem_cons] at hitems
        exact composes_orderItems_cons (hitems.1 y z) (ih hitems.2) hxy hyz hxz

/-- The orders of three values are those of three things in one line. -/
theorem Value.composes_order (v : Value) : ∀ (w u : Value) (o p q : Ordering), v.order w = .ok (some o) →
    w.order u = .ok (some p) → v.order u = .ok (some q) → Ordering.Composes o p q := by
  induction v using Value.sequence_induction with
  | null =>
    intro w u o p q hvw
    cases hvw
  | single v hv =>
    intro w u o p q hvw hwu hvu
    rw [hv.order] at hvw hvu
    rw [(Kind.isSingle_of_orderScalar hvw).2.order] at hwu
    exact Kind.composes_orderScalar hvw hwu hvu
  | list items hitems =>
    intro w u o p q hvw hwu hvu
    cases w with
    | list items' =>
      cases u with
      | list items'' => exact composes_orderItems hitems hvw hwu hvu
      | _ => cases hvu
    | _ => cases hvw
  | tuple items hitems =>
    intro w u o p q hvw hwu hvu
    cases w with
    | tuple items' =>
      cases u with
      | tuple items'' => exact composes_orderItems hitems hvw hwu hvu
      | _ => cases hvu
    | _ => cases hvw

/-! ## Marks -/

/-- Things that are in one line are in the order of marks, which count those that come before each. -/
theorem exists_marks_of_composes {α : Type} {items : List α} {order : α → α → Ordering}
    (hself : ∀ x ∈ items, order x x = .eq)
    (hcomposes : ∀ x ∈ items, ∀ y ∈ items, ∀ z ∈ items, Ordering.Composes (order x y) (order y z) (order x z)) :
    ∃ mark : α → Nat, ∀ x ∈ items, ∀ y ∈ items, order x y = compare (mark x) (mark y) := by
  obtain ⟨mark, hmark⟩ : ∃ mark : α → Nat, ∀ y, mark y = (items.filter fun x => order x y == .lt).length :=
    ⟨_, fun _ => rfl⟩
  have heq : ∀ x ∈ items, ∀ y ∈ items, order x y = .eq → mark x = mark y := by
    intro x hx y hy h
    rw [hmark, hmark]
    refine congrArg List.length (List.filter_congr fun z hz => ?_)
    rw [(hcomposes z hz x hx y hy).right h]
  have hlt : ∀ x ∈ items, ∀ y ∈ items, order x y = .lt → mark x < mark y := by
    intro x hx y hy h
    have hbefore : (items.filter fun z => order z x == .lt) =
        (items.filter fun z => order z y == .lt).filter fun z => order z x == .lt := by
      rw [List.filter_filter]
      refine List.filter_congr fun z hz => ?_
      cases hzx : order z x with
      | lt =>
        rw [(hcomposes z hz x hx y hy).both (hzx.trans h.symm), hzx]
        rfl
      | eq | gt => rfl
    rw [hmark, hmark, hbefore, List.length_filter_lt_length_iff_exists]
    exact ⟨x, List.mem_filter.2 ⟨hx, by rw [h]; rfl⟩, by rw [hself x hx]; decide⟩
  refine ⟨mark, fun x hx y hy => ?_⟩
  cases h : order x y with
  | lt => exact (compare_lt_iff_lt.2 (hlt x hx y hy h)).symm
  | eq => exact (compare_eq_iff_eq.2 (heq x hx y hy h)).symm
  | gt =>
    have hback := hcomposes x hx y hy x hx
    rw [h, hself x hx] at hback
    cases hyx : order y x with
    | lt => exact (compare_gt_iff_gt.2 (hlt y hy x hx hyx)).symm
    | eq => cases hback.right hyx
    | gt => cases hback.both hyx.symm

/-- Values any two of which have an order are in the order of marks. -/
theorem Value.exists_marks {values : List Value}
    (horder : ∀ v ∈ values, ∀ w ∈ values, ∃ order, orderOf v w = .ok (some order)) :
    ∃ mark : Value → Nat, ∀ v ∈ values, ∀ w ∈ values, orderOf v w = .ok (some (compare (mark v) (mark w))) := by
  choose! order horder using horder
  have hvalue : ∀ v ∈ values, ∀ w ∈ values, v.order w = .ok (some (order v w)) :=
    fun v hv w hw => Kind.order_of_orderOf (horder v hv w hw)
  obtain ⟨mark, hmark⟩ : ∃ mark : Value → Nat, ∀ v ∈ values, ∀ w ∈ values, order v w = compare (mark v) (mark w) := by
    refine exists_marks_of_composes (fun v hv => v.order_self _ (hvalue v hv v hv)) ?_
    intro v hv w hw u hu
    exact v.composes_order w u _ _ _ (hvalue v hv w hw) (hvalue w hw u hu) (hvalue v hv u hu)
  refine ⟨mark, fun v hv w hw => ?_⟩
  rw [horder v hv w hw, hmark v hv w hw]

end Winnow
