import Winnow.Proofs.Calendar
import Winnow.Proofs.CanonicalText
import Winnow.Proofs.Matching
import Winnow.Proofs.Nesting
import Winnow.Selection

/-!
# Which faults matching ends with

A filter that is read from JSON data and an item that is JSON are compared without a fault, except that a date may lead
out of the calendar: a relative date that goes back before year 1, or a date and time whose offset does. No other fault
is possible, and none at all where every date that is compared is within the calendar (`Filter.accepts_decoded`), as
long as the numbers that stand for texts can be written (`Filter.IsStarted`); which relative dates are in the calendar
is told by `RelativeDate.exists_resolve_iff`. A value that is not comparable with a bound is passed over.
-/

namespace Winnow

/-! ## Faults of a kind -/

section FaultsIn

variable {F : Fault → Prop} {α β : Type}

/-- The fault that a computation may end with is of a kind. -/
def FaultsIn (F : Fault → Prop) (x : Except Fault α) : Prop :=
  ∀ fault, x = .error fault → F fault

theorem FaultsIn.ok (a : α) : FaultsIn F (.ok a) :=
  nofun

theorem FaultsIn.error {fault : Fault} (h : F fault) : FaultsIn F (.error fault : Except Fault α) := by
  rintro _ ⟨⟩
  exact h

theorem FaultsIn.bind {x : Except Fault α} {f : α → Except Fault β} (hx : FaultsIn F x)
    (hf : ∀ a, x = .ok a → FaultsIn F (f a)) : FaultsIn F (x >>= f) := by
  cases x with
  | error fault => exact .error (hx fault rfl)
  | ok a => exact hf a rfl

theorem FaultsIn.map {x : Except Fault α} (hx : FaultsIn F x) (f : α → β) : FaultsIn F (x.map f) := by
  cases x with
  | error fault => exact .error (hx fault rfl)
  | ok a => exact .ok _

/-- A computation without a fault of any kind has an answer. -/
theorem FaultsIn.answered {x : Except Fault α} (hx : FaultsIn (fun _ => False) x) : ∃ a, x = .ok a := by
  cases x with
  | error fault => exact absurd rfl (hx fault)
  | ok a => exact ⟨a, rfl⟩

/-- A computation that has an answer has no fault of any kind. -/
theorem FaultsIn.of_ok {x : Except Fault α} {a : α} (h : x = .ok a) : FaultsIn F x := by
  rw [h]
  exact .ok a

variable {test : α → Except Fault Bool} {items : List α}

theorem FaultsIn.allPass (h : ∀ a ∈ items, FaultsIn F (test a)) : FaultsIn F (allPass test items) := by
  induction items with
  | nil => exact .ok true
  | cons a rest ih =>
    refine (h a (.head _)).bind fun answer _ => ?_
    split
    · exact ih fun b hb => h b (.tail _ hb)
    · exact .ok false

theorem FaultsIn.anyPasses (h : ∀ a ∈ items, FaultsIn F (test a)) : FaultsIn F (anyPasses test items) := by
  induction items with
  | nil => exact .ok false
  | cons a rest ih =>
    refine (h a (.head _)).bind fun answer _ => ?_
    split
    · exact .ok true
    · exact ih fun b hb => h b (.tail _ hb)

end FaultsIn

/-! ## Parts of JSON values -/

namespace Value

variable {texts : String → Prop}

/-- A part of a JSON value is JSON. -/
theorem IsJsonOf.member {v : Value} (h : v.IsJsonOf texts) (part : String) : (v.member part).IsJsonOf texts := by
  have hnumber : ∀ n, (numberPart n part).IsJsonOf texts := by
    intro n
    unfold numberPart
    split
    · exact .int n
    · exact .int n
    · exact .int 0
    · exact .int 1
    · exact .null
  cases h with
  | null => exact .null
  | bool b => exact hnumber _
  | int n => exact hnumber n
  | float x =>
    unfold Value.member
    dsimp only
    split
    · exact .float x
    · split
      · exact .float _
      · exact .null
  | text _ => exact .null
  | list _ => exact .null
  | object hentries => exact (IsJsonOf.object hentries).lookup part

/-- A function that keeps JSON values JSON keeps them so through lists. -/
theorem IsJsonOf.throughLists {f : Value → Value} (hf : ∀ v : Value, v.IsJsonOf texts → (f v).IsJsonOf texts)
    {v : Value} (h : v.IsJsonOf texts) : (v.throughLists f).IsJsonOf texts := by
  induction h with
  | null => exact .null
  | @list items _ ih =>
    rw [Value.throughLists, throughItems_eq]
    exact .list (List.forall_mem_map.2 ih)
  | bool b => exact hf _ (.bool b)
  | int n => exact hf _ (.int n)
  | float x => exact hf _ (.float x)
  | text hs => exact hf _ (.text hs)
  | object hentries _ => exact hf _ (.object hentries)

/-- What a path leads to in a JSON value is JSON. -/
theorem IsJsonOf.resolve {v : Value} (h : v.IsJsonOf texts) (path : String) : (v.resolve path).IsJsonOf texts := by
  have hfollow : ∀ (parts : List String) (v : Value), v.IsJsonOf texts → (follow parts v).IsJsonOf texts := by
    intro parts
    induction parts with
    | nil => exact fun v h => h
    | cons part rest ih => exact fun v h => h.throughLists fun inner hinner => ih _ (hinner.member part)
  exact hfollow _ v h

/-- The values of a JSON field are JSON. -/
theorem IsJsonOf.elements {v : Value} (h : v.IsJsonOf texts) : ∀ element ∈ v.elements, element.IsJsonOf texts := by
  induction h with
  | null => exact nofun
  | @list items _ ih =>
    intro element helement
    obtain ⟨w, hw, hmem⟩ := mem_elementsOfItems.1 helement
    exact ih w hw element hmem
  | bool b => exact List.forall_mem_singleton.2 (.bool b)
  | int n => exact List.forall_mem_singleton.2 (.int n)
  | float x => exact List.forall_mem_singleton.2 (.float x)
  | text hs => exact List.forall_mem_singleton.2 (.text hs)
  | object hentries _ => exact List.forall_mem_singleton.2 (.object hentries)

/-- A JSON value is no date. -/
theorem IsJsonOf.isTemporal {v : Value} (h : v.IsJsonOf texts) : v.isTemporal = false := by
  cases h <;> rfl

/-- What a value is compared with: a plain scalar or a date, with or without a time. -/
def IsTarget : Value → Prop
  | null | bool _ | int _ | float _ | text _ | date _ | datetime _ => True
  | _ => False

theorem IsTarget.exact {w : Value} (h : w.IsTarget) : w.isDecimal = false ∧ w.isSignaling = false := by
  cases w with
  | decimal x => exact absurd h id
  | _ => exact ⟨rfl, rfl⟩

/-- Two values of which none is a decimal are not refused to be ordered. -/
theorem orderScalar_ne_undefined {v w : Value} (hv : v.isDecimal = false) (hw : w.isDecimal = false) :
    v.orderScalar w ≠ .error .undefined := by
  have hknown : ∀ o, orderScalar.known o ≠ .error .undefined := by
    intro o
    cases o with
    | none => exact nofun
    | some o => exact nofun
  unfold orderScalar
  split
  · unfold orderQuantity
    split
    · exact nofun
    · rw [hv, hw]
      exact nofun
  · split
    · exact nofun
    · split
      · exact nofun
      · exact hknown _
      · exact hknown _
      · exact nofun
      · exact nofun

/-- A JSON value can be tested for equality with a scalar. -/
theorem IsJsonOf.signals {v : Value} (h : v.IsJsonOf texts) {w : Value} (hw : w.IsTarget) : v.signals w = false := by
  cases h with
  | list hitems =>
    cases w with
    | list items => exact absurd hw id
    | _ => rfl
  | object hentries =>
    cases w with
    | object entries => exact absurd hw id
    | _ => rfl
  | _ =>
    show signalsScalar _ _ = _
    exact signalsScalar_eq_false rfl hw.exact.2

/-- The order of a JSON value and a scalar is never refused, though there may be none. -/
theorem IsJsonOf.order {v : Value} (h : v.IsJsonOf texts) {w : Value} (hw : w.IsTarget) :
    v.order w ≠ .error .undefined := by
  have hexact : v.isDecimal = false := by cases h <;> rfl
  have hscalar : v.order w = v.orderScalar w ∨ ∃ items, v = .list items := by
    cases h with
    | list _ => exact .inr ⟨_, rfl⟩
    | _ => exact .inl rfl
  rcases hscalar with hscalar | ⟨items, rfl⟩
  · rw [hscalar]
    exact orderScalar_ne_undefined hexact hw.exact.1
  · cases w with
    | list items => exact absurd hw id
    | _ => exact nofun

end Value

/-! ## Dates within the calendar -/

/-- The faults of leading out of the calendar. -/
def Fault.IsOfCalendar : Fault → Prop
  | daysTooLarge | daysBeyondRange _ | outOfCalendar => True
  | _ => False

/-- Whether a value stands for an instant of the calendar, or for none at all. -/
def Value.InCalendar (v : Value) : Prop :=
  ∃ i, v.toInstant = .ok i

theorem DateTime.toInstant_faults (t : DateTime) : FaultsIn Fault.IsOfCalendar t.toInstant := by
  unfold toInstant
  split
  · exact .ok _
  · exact .error trivial

/-- A value stands for an instant, for none, or for one out of the calendar. -/
theorem Value.toInstant_faults (v : Value) : FaultsIn Fault.IsOfCalendar v.toInstant := by
  unfold toInstant
  split
  · exact (DateTime.toInstant_faults _).map _
  · exact (DateTime.toInstant_faults _).map _
  · split
    · exact (DateTime.toInstant_faults _).map _
    · exact .ok none

namespace Clock

/-- A clock that shows a date and time. -/
def showing (now : DateTime) (system : Instant) : Clock where
  shown := .datetime now
  system := system

/-- The instant by a clock that shows a date and time is that of it. -/
theorem now_showing {now : DateTime} {i : Instant} (h : now.toInstant? = some i) (system : Instant) :
    (showing now system).now = .ok i := by
  rw [Clock.now, showing, Value.toInstant, DateTime.toInstant_of_toInstant? h]
  rfl

theorem now_faults (clock : Clock) : FaultsIn Fault.IsOfCalendar clock.now :=
  (Value.toInstant_faults _).bind fun _ _ => .ok _

end Clock

namespace RelativeDate

variable {clock : Clock} {i : Instant}

theorem floor_faults (clock : Clock) (days : Nat) : FaultsIn Fault.IsOfCalendar (floor clock days) := by
  refine clock.now_faults.bind fun current _ => ?_
  dsimp only
  split
  · exact .error trivial
  · split
    · exact .error trivial
    · split
      · exact .ok _
      · exact .error trivial

theorem ceil_faults (clock : Clock) (days : Nat) : FaultsIn Fault.IsOfCalendar (ceil clock days) := by
  refine (floor_faults clock days).bind fun start _ => ?_
  split
  · exact .ok _
  · exact .error trivial

/-- A bound is resolved, or it leads out of the calendar. -/
theorem resolve_faults (clock : Clock) (b : Bound) (operand : Value) :
    FaultsIn Fault.IsOfCalendar (resolve clock b operand) := by
  unfold resolve
  split
  · cases b with
    | gt | lte => exact (ceil_faults clock _).map _
    | gte | lt => exact (floor_faults clock _).map _
  · exact .ok _

/-- The first instant of a day in the calendar is told. -/
theorem floor_ok (hnow : clock.now = .ok i) {days : Nat} (h : days ≤ i.day) :
    ∃ start : Instant, start.micros = (i.day - days) * microsPerDay ∧ floor clock days = .ok start := by
  have hday : i.day < 3652059 := Nat.div_lt_of_lt_mul i.micros_lt
  have hmicros : (i.day - days) * microsPerDay < 3652059 * 86400000000 := by
    unfold microsPerDay
    omega
  have hstart : i.dayStart? days = some ⟨(i.day - days) * microsPerDay, hmicros⟩ := by
    rw [Instant.dayStart?, if_pos h, ← Int.natCast_sub h, ← Int.natCast_mul]
    exact Instant.of?_micros ⟨_, hmicros⟩
  refine ⟨⟨_, hmicros⟩, rfl, ?_⟩
  rw [floor, hnow]
  simp only [ok_bind, hstart]
  rw [if_neg (by have : Nat.pow 2 31 = 2147483648 := rfl; omega), if_neg (by omega)]
  rfl

/-- The first instant of a day before the calendar is not told. -/
theorem floor_error (hnow : clock.now = .ok i) {days : Nat} (h : i.day < days) :
    ∃ fault, floor clock days = .error fault := by
  have hstart : i.dayStart? days = none := by rw [Instant.dayStart?, if_neg (Nat.not_le.2 h)]
  rw [floor, hnow]
  simp only [ok_bind, hstart]
  split
  · exact ⟨_, rfl⟩
  · split
    · exact ⟨_, rfl⟩
    · exact ⟨_, rfl⟩

/-- A shift that stays within the calendar ends at an instant. -/
theorem shift?_eq {start next : Instant} {micros : Int} (h : (next.micros : Int) = start.micros + micros) :
    start.shift? micros = some next := by
  rw [Instant.shift?, ← h, Instant.of?_micros]

/-- A day has a last millisecond exactly when another day comes after it. -/
theorem exists_lastMilli_iff {start : Instant} {day : Nat} (h : start.micros = day * microsPerDay) :
    (∃ last, start.lastMilli? = some last) ↔ day + 1 < 3652059 := by
  unfold microsPerDay at h
  constructor
  · rintro ⟨last, hlast⟩
    obtain ⟨next, hnext, -⟩ := Option.bind_eq_some_iff.1 hlast
    unfold Instant.shift? Instant.of? microsPerDay at hnext
    split at hnext
    · omega
    · cases hnext
  · intro hday
    obtain ⟨next, hnext⟩ : ∃ next : Instant, next.micros = start.micros + 86400000000 := ⟨⟨_, by omega⟩, rfl⟩
    obtain ⟨last, hlast⟩ : ∃ last : Instant, last.micros = next.micros - 1000 := ⟨⟨_, by omega⟩, rfl⟩
    refine ⟨last, Option.bind_eq_some_iff.2 ⟨next, shift?_eq ?_, shift?_eq ?_⟩⟩
    · unfold microsPerDay
      omega
    · omega

/-- A relative date is resolved exactly when its day is in the calendar, and for a bound that is rounded up not the last
day of it. -/
theorem exists_resolve_iff (hnow : clock.now = .ok i) (b : Bound) (days : Nat) :
    (∃ limit, resolve clock b (.daysAgo days) = .ok limit) ↔
      days ≤ i.day ∧ (b = .gt ∨ b = .lte → i.day - days + 1 < 3652059) := by
  by_cases hdays : days ≤ i.day
  · obtain ⟨start, hstart, hfloor⟩ := floor_ok hnow hdays
    have hceil : (∃ limit, (ceil clock days).map Value.ofInstant = .ok limit) ↔ i.day - days + 1 < 3652059 := by
      rw [← exists_lastMilli_iff hstart, ceil, hfloor, ok_bind]
      cases start.lastMilli? with
      | none => exact ⟨nofun, nofun⟩
      | some last => exact ⟨fun _ => ⟨last, rfl⟩, fun _ => ⟨_, rfl⟩⟩
    have hstays : ∃ limit, (floor clock days).map Value.ofInstant = .ok limit := by
      rw [hfloor]
      exact ⟨_, rfl⟩
    simp only [hdays, true_and]
    cases b with
    | gt | lte => simpa [resolve] using hceil
    | gte | lt => simpa [resolve] using hstays
  · obtain ⟨fault, hfault⟩ := floor_error hnow (Nat.lt_of_not_le hdays)
    have hceil : ceil clock days = .error fault := by
      rw [ceil, hfault]
      rfl
    refine iff_of_false ?_ fun h => hdays h.1
    rintro ⟨limit, hlimit⟩
    cases b <;> simp [resolve, hfault, hceil, Except.map] at hlimit

end RelativeDate

/-! ## Comparisons -/

namespace Comparable

variable {F : Fault → Prop} {texts : String → Prop} {v w : Value}

/-- Two values are brought to a common form without a fault when their instants are found without one, where these
matter. -/
theorem of_faults (h : v.isTemporal = true ∨ w.isTemporal = true → FaultsIn F v.toInstant ∧ FaultsIn F w.toInstant) :
    FaultsIn F (of v w) := by
  unfold of
  split
  · next htemporal =>
    obtain ⟨hv, hw⟩ := h (by simpa using htemporal)
    refine hv.bind fun left _ => hw.bind fun right _ => ?_
    split
    · exact .ok _
    · exact .ok _
  · exact .ok _

/-- A JSON value and a scalar in a common form are tested and ordered without being refused. -/
theorem of_defined (hv : v.IsJsonOf texts) (hw : w.IsTarget) {pair : Comparable} (h : of v w = .ok (some pair)) :
    (∃ b, pair.same? = some b) ∧ pair.order ≠ .error .undefined := by
  cases pair with
  | instants i j => exact ⟨⟨_, rfl⟩, nofun⟩
  | values x y =>
    obtain ⟨rfl, rfl⟩ : x = v ∧ y = w := by
      unfold of at h
      split at h
      · cases hleft : v.toInstant with
        | error fault =>
          rw [hleft] at h
          cases h
        | ok left =>
          cases hright : w.toInstant with
          | error fault =>
            rw [hleft, hright] at h
            cases h
          | ok right =>
            rw [hleft, hright] at h
            cases left <;> cases right <;> cases h
      · cases h
        exact ⟨rfl, rfl⟩
    refine ⟨⟨x.same y, ?_⟩, hv.order hw⟩
    rw [same?, Value.same?, hv.signals hw]
    rfl

end Comparable

namespace Comparison

variable {F : Fault → Prop} {texts : String → Prop} {values : List Value} {clock : Clock}
  {operand w : Value}

/-- What a comparison compares values with: its operand, and the instant that a relative date stands for. -/
def target (op : Comparison) (clock : Clock) (operand : Value) : Except Fault Value :=
  match op with
  | bound b => RelativeDate.resolve clock b operand
  | _ => .ok operand

theorem contains_faults (hw : w.IsTarget) (hvalues : ∀ v ∈ values, v.IsJsonOf texts ∧ FaultsIn F (Comparable.of v w)) :
    FaultsIn F (contains values w) := by
  induction values with
  | nil => exact .ok false
  | cons v rest ih =>
    obtain ⟨⟨hv, hof⟩, hrest⟩ := List.forall_mem_cons.1 hvalues
    refine hof.bind fun form hform => ?_
    cases form with
    | none => exact ih hrest
    | some pair =>
      obtain ⟨⟨b, hb⟩, -⟩ := Comparable.of_defined hv hw hform
      simp only [hb, Fault.ofTest, ok_bind]
      cases b with
      | true => exact .ok true
      | false => exact ih hrest

theorem withinBound_faults (b : Bound) (hw : w.IsTarget)
    (hvalues : ∀ v ∈ values, v.IsJsonOf texts ∧ FaultsIn F (Comparable.of v w)) :
    FaultsIn F (withinBound b values w) := by
  induction values with
  | nil => exact .ok false
  | cons v rest ih =>
    obtain ⟨⟨hv, hof⟩, hrest⟩ := List.forall_mem_cons.1 hvalues
    refine hof.bind fun form hform => ?_
    cases form with
    | none => exact ih hrest
    | some pair =>
      obtain ⟨-, horder⟩ := Comparable.of_defined hv hw hform
      dsimp only
      split
      · split
        · exact .ok true
        · exact ih hrest
      · exact ih hrest
      · next hundefined => exact absurd hundefined horder

/-- Whether the text that values should begin with can be written, if a comparison asks for one. -/
def Starts (op : Comparison) (operand : Value) : Prop :=
  op = .startsWith → operand.plainText.isSome = true

/-- A comparison of JSON values has no fault but those of finding what they are compared with, of bringing them to a
common form with it, and of writing the text that they should begin with. -/
theorem holds_faults {op : Comparison} (hstarts : op.Starts operand ∨ F .integerUnwritable)
    (htarget : FaultsIn F (op.target clock operand))
    (h : ∀ w, op.target clock operand = .ok w →
      w.IsTarget ∧ ∀ v ∈ values, v.IsJsonOf texts ∧ FaultsIn F (Comparable.of v w)) :
    FaultsIn F (op.holds clock values operand) := by
  unfold holds
  split
  · exact .ok _
  · exact .ok _
  · obtain ⟨hw, hvalues⟩ := h operand rfl
    exact contains_faults hw hvalues
  · obtain ⟨hw, hvalues⟩ := h operand rfl
    exact (contains_faults hw hvalues).map _
  · next b =>
    refine htarget.bind fun w hw => ?_
    exact withinBound_faults b (h w hw).1 (h w hw).2
  · exact .ok _
  · refine .map ?_ _
    cases htext : operand.plainText with
    | some text => exact .ok text
    | none =>
      rcases hstarts with hstarts | hunwritable
      · cases htext ▸ hstarts rfl
      · exact .error hunwritable

theorem isTarget_of_readCanonical {s : String} {v : Value} (h : readCanonical? s = some v) : v.IsTarget := by
  obtain ⟨t, rfl, -⟩ | ⟨d, rfl, -⟩ := of_readCanonical h
  · trivial
  · trivial

/-- A scalar or a date is what a comparison with it compares with. -/
theorem target_of_isTarget (op : Comparison) (h : operand.IsTarget) : op.target clock operand = .ok operand := by
  cases op with
  | bound b =>
    cases operand with
    | daysAgo days => exact absurd h id
    | _ => rfl
  | _ => rfl

/-- What a comparison that was read compares with is a scalar or a date. -/
theorem Reads.isTarget {op : Comparison} (h : op.Reads operand) (hw : op.target clock operand = .ok w) :
    w.IsTarget := by
  have hplain : operand.IsTarget → w.IsTarget := by
    intro hoperand
    rw [target_of_isTarget op hoperand] at hw
    cases hw
    exact hoperand
  cases h with
  | null | bool | int | float | text | start => exact hplain trivial
  | moment _ hread => exact hplain (isTarget_of_readCanonical hread)
  | daysAgo b days =>
    have hinstant : ∀ x : Except Fault Instant, x.map Value.ofInstant = .ok w → w.IsTarget := by
      intro x hx
      cases x with
      | error fault => cases hx
      | ok i =>
        cases hx
        trivial
    cases b <;> exact hinstant _ hw

/-- A value that is comparable with a bound and within it. -/
def IsWithin (b : Bound) (limit v : Value) : Prop :=
  ∃ pair order, Comparable.of v limit = .ok (some pair) ∧ pair.order = .ok order ∧ b.admits order = true

/-- An answer about one value is whether it is comparable with the bound and within it. -/
theorem withinBound_singleton_iff {b : Bound} {answer : Bool} {v : Value} (h : withinBound b [v] w = .ok answer) :
    answer = true ↔ IsWithin b w v := by
  rw [withinBound] at h
  unfold IsWithin
  cases hof : Comparable.of v w with
  | error fault =>
    rw [hof] at h
    cases h
  | ok form =>
    rw [hof, ok_bind] at h
    cases form with
    | none =>
      cases h
      simp
    | some pair =>
      simp only [Except.ok.injEq, Option.some.injEq, exists_and_left, exists_eq_left']
      cases horder : pair.order with
      | ok order =>
        simp only [horder] at h
        cases hadmits : b.admits order with
        | true =>
          rw [hadmits] at h
          cases h
          simp [hadmits]
        | false =>
          rw [hadmits] at h
          cases h
          simp [hadmits]
      | error undecided =>
        simp only [horder] at h
        cases undecided <;> cases h
        simp

/-- An answer about a bound is whether some value is comparable with it and within it. -/
theorem withinBound_eq_true_iff {b : Bound} {answer : Bool} (h : withinBound b values w = .ok answer) :
    answer = true ↔ ∃ v ∈ values, IsWithin b w v := by
  rw [withinBound_eq_anyPasses] at h
  exact eq_true_iff_of_anyPasses (fun v _ answer => withinBound_singleton_iff) h

end Comparison

/-! ## Filters -/

section Filters

variable {F : Fault → Prop} {texts : String → Prop} {clock : Clock} {s : Shape}

/-- A condition on a JSON value has no fault but those of its comparisons, by induction on how it is built. -/
theorem Condition.evaluate_faults {c : Condition} (hc : c.Has s)
    (hleaf : ∀ op operand, s.operand op operand → ∀ values : List Value, (∀ v ∈ values, v.IsJsonOf texts) →
      FaultsIn F (op.holds clock values operand))
    {value : Value} (hvalue : value.IsJsonOf texts) :
    FaultsIn F ((Registry.standard clock).evaluate c value) := by
  induction hc generalizing value with
  | @compare op operand hop =>
    rw [Registry.evaluate_compare]
    exact hleaf op operand hop _ hvalue.elements
  | @combine op members _ _ ih =>
    cases op with
    | all =>
      rw [Registry.evaluate_all]
      exact .allPass fun c hc => ih c hc hvalue
    | any =>
      by_cases hne : members = []
      · rw [hne]
        exact .of_ok (Registry.evaluate_any_nil value)
      · rw [Registry.evaluate_any hne]
        exact .anyPasses fun c hc => ih c hc hvalue
  | @nested op pairs _ _ ih =>
    have hquery : FaultsIn F
        (anyPasses (fun element => (Registry.standard clock).matchesQuery pairs element) value.elements) := by
      refine .anyPasses fun element helement => ?_
      rw [Registry.matchesQuery_eq]
      exact .allPass fun p hp => ih p hp ((hvalue.elements element helement).resolve p.1)
    cases op with
    | find =>
      rw [Registry.evaluate_find]
      exact hquery
    | nfind =>
      rw [Registry.evaluate_nfind]
      exact hquery.map _

/-- A filter has no fault on a JSON item but those of the comparisons of its conditions. -/
theorem Filter.accepts_faults {o : DecodeOptions} {f : Filter} (hf : f.Accepted o) (hc : ∀ c ∈ f.conditions, c.Has s)
    (hleaf : ∀ op operand, s.operand op operand → ∀ values : List Value, (∀ v ∈ values, v.IsJsonOf texts) →
      FaultsIn F (op.holds clock values operand))
    {item : Value} (hitem : item.IsJsonOf texts) : FaultsIn F (f.accepts (.standard clock) item) := by
  obtain ⟨statements, hstatements, -⟩ := hf.statements
  rw [accepts, hstatements, Registry.matchesStatements_statementsOf]
  refine .allPass fun statement hstatement => .anyPasses fun q hq => ?_
  rw [Registry.matchesQuery_eq]
  refine .allPass fun p hp => Condition.evaluate_faults ?_ hleaf (hitem.resolve p.1)
  exact hc p.2 ((mem_conditions hstatements).2 ⟨statement, hstatement, q, hq, p, hp, rfl⟩)

end Filters

/-- Every text of a JSON value that stands for a date stands for an instant of the calendar. -/
def Value.IsTimely (v : Value) : Prop :=
  v.IsJsonOf fun s => (text s).InCalendar

/-- Whether a comparison stays within the calendar: its relative date does, and a date that values are compared with
does, together with the dates that are compared with it. -/
def Comparison.StaysInCalendar (clock : Clock) (item : Value) (op : Comparison) (operand : Value) : Prop :=
  op.Reads operand ∧ ∃ limit, op.target clock operand = .ok limit ∧
    (limit.isTemporal = true → limit.InCalendar ∧ item.IsTimely)

/-- The shape of conditions whose texts to begin with can be written. -/
def Condition.startedShape : Shape where
  operand := Comparison.Starts
  field := fun _ => True

/-- Whether every text that a filter asks values to begin with can be written. -/
def Filter.IsStarted (f : Filter) : Prop :=
  ∀ c ∈ f.conditions, c.Has Condition.startedShape

/-- The texts to begin with that are read of data can be written when the data can be shown. -/
theorem Decode.builds_started (o : DecodeOptions) :
    Builds o (fun v => v.isShown = true) fun _ _ c => c.Has Condition.startedShape where
  compare := by
    intro room path op place value hvalue
    unfold scalar
    split
    · split
      · refine .pure fun c hc => ?_
        cases hc
        exact .compare nofun
      · exact .report _ _ _
    · exact .report _ _ _
    · exact .report _ _ _
    · refine .pure fun c hc => ?_
      cases hc
      refine .compare ?_
      rintro rfl
      rfl
    · refine .pure fun c hc => ?_
      cases hc
      exact .compare fun _ => Value.isSome_plainText hvalue
  combine := fun hmembers => .combine (fun _ _ => trivial) hmembers
  nested := fun _ hparts => .nested (fun _ _ => trivial) hparts

/-- The beginning of July 2025 in universal time. -/
def DateTime.july : DateTime :=
  ⟨{ year := 2025, month := 7, day := 1 }, .midnight, some .utc⟩

/-- A clock that shows it. -/
def Clock.july : Clock :=
  .showing .july Clock.atStart.system

namespace Filter

variable {o : DecodeOptions} {data item : Value} {f : Filter} {clock : Clock}

/-- A filter that JSON data is read as leads out of the calendar, comes to a text that cannot be written, or has an
answer on a JSON item. -/
theorem accepts_decoded_faults {F : Fault → Prop} (hf : f.Accepted o) (hitem : item.IsJson) (clock : Clock)
    (hcalendar : ∀ fault, fault.IsOfCalendar → F fault) (hstarts : f.IsStarted ∨ F .integerUnwritable) :
    FaultsIn F (f.accepts (.standard clock) item) := by
  have hconditions : ∀ c ∈ f.conditions,
      c.Has { operand := fun op v => op.Reads v ∧ (op.Starts v ∨ F .integerUnwritable) } := by
    intro c hc
    have haccepted := (hf.of_mem_conditions hc).1
    rcases hstarts with hstarts | hunwritable
    · exact haccepted.both (hstarts c hc) (fun _ _ hreads hstarts => ⟨hreads, .inl hstarts⟩) (fun _ hfield _ => hfield)
        fun _ _ _ _ => trivial
    · exact haccepted.mono (fun _ _ hreads => ⟨hreads, .inr hunwritable⟩) (fun _ hfield => hfield) fun _ _ _ => trivial
  have hof {α : Type} {x : Except Fault α} (hx : FaultsIn Fault.IsOfCalendar x) : FaultsIn F x :=
    fun fault hfault => hcalendar fault (hx fault hfault)
  refine accepts_faults hf hconditions ?_ hitem
  rintro op operand ⟨hop, hstarts⟩ values hvalues
  refine Comparison.holds_faults hstarts ?_ fun w hw => ⟨hop.isTarget hw, fun v hv => ⟨hvalues v hv, ?_⟩⟩
  · cases op with
    | bound b => exact hof (RelativeDate.resolve_faults clock b operand)
    | _ => exact .ok _
  · exact Comparable.of_faults fun _ => ⟨hof v.toInstant_faults, hof w.toInstant_faults⟩

/-- A filter that JSON data is read as has an answer on a JSON item when its comparisons stay within the calendar and
its texts to begin with can be written. -/
theorem accepts_decoded_answered (hf : f.Accepted o) (hitem : item.IsJson)
    (h : ∀ c ∈ f.conditions, c.Has { operand := Comparison.StaysInCalendar clock item }) (hstarts : f.IsStarted) :
    ∃ answer, f.accepts (.standard clock) item = .ok answer := by
  -- Texts need to be within the calendar only where there is something to compare with them as dates.
  obtain ⟨texts, htexts, htimely⟩ : ∃ texts, item.IsJsonOf texts ∧
      (item.IsTimely → ∀ s, texts s → (Value.text s).InCalendar) := by
    by_cases hitem' : item.IsTimely
    · exact ⟨_, hitem', fun _ s hs => hs⟩
    · exact ⟨_, hitem, fun habsurd => absurd habsurd hitem'⟩
  have hconditions : ∀ c ∈ f.conditions,
      c.Has { operand := fun op v => op.StaysInCalendar clock item v ∧ op.Starts v } :=
    fun c hc => (h c hc).both (hstarts c hc) (fun _ _ hstays hstarts => ⟨hstays, hstarts⟩) (fun _ hfield _ => hfield)
      fun _ _ _ _ => trivial
  refine (accepts_faults (F := fun _ => False) hf hconditions ?_ htexts).answered
  rintro op operand ⟨⟨hop, limit, hlimit, hcalendar⟩, hstarts⟩ values hvalues
  refine Comparison.holds_faults (.inl hstarts) (.of_ok hlimit) fun w hw =>
    ⟨hop.isTarget hw, fun v hv => ⟨hvalues v hv, ?_⟩⟩
  rw [hlimit] at hw
  cases hw
  refine Comparable.of_faults fun htemporal => ?_
  obtain ⟨⟨i, hi⟩, hitem'⟩ := hcalendar (htemporal.resolve_left (by rw [(hvalues v hv).isTemporal]; decide))
  refine ⟨?_, .of_ok hi⟩
  cases hvalues v hv with
  | text hs =>
    obtain ⟨j, hj⟩ := htimely hitem' _ hs
    exact .of_ok hj
  | _ => exact .ok none

/-- Data that can be shown, such as that of any JSON text, is read as a filter whose texts to begin with can be
written. -/
theorem isStarted_of_decode (hdata : data.isShown = true) (h : (decode o data).result = .ok f) : f.IsStarted := by
  obtain ⟨statements, hstatements, hpairs⟩ :=
    of_decode h (Decode.filter_yields_statements Value.inherited_isShown (Decode.builds_started o) hdata)
  intro c hc
  obtain ⟨statement, hstatement, q, hq, p, hp, rfl⟩ := (mem_conditions hstatements).1 hc
  exact (hpairs statement hstatement q hq p hp).2

/-- A filter that JSON data is read as, on a JSON item and by any clock, leads out of the calendar or has an answer,
unless it asks for a text to begin with that cannot be written, which no data that can be shown does. It has an answer
when its comparisons stay within the calendar, and an answer about a bound is whether some value is comparable with it
and within it. -/
theorem accepts_decoded (hdata : data.IsJson) (hitem : item.IsJson) (h : (decode o data).result = .ok f)
    (clock : Clock) :
    (∀ fault, f.accepts (.standard clock) item = .error fault →
        fault.IsOfCalendar ∨ fault = .integerUnwritable ∧ ¬f.IsStarted) ∧
      (data.isShown = true → f.IsStarted) ∧
      ((∀ c ∈ f.conditions, c.Has { operand := Comparison.StaysInCalendar clock item }) → f.IsStarted →
        ∃ answer, f.accepts (.standard clock) item = .ok answer) ∧
      ∀ b operand value answer,
        (Registry.standard clock).evaluate (.within b operand) value = .ok answer →
          ∃ limit, RelativeDate.resolve clock b operand = .ok limit ∧
            (answer = true ↔ ∃ v ∈ value.elements, Comparison.IsWithin b limit v) := by
  have hf := accepted_of_decode hdata h
  refine ⟨?_, fun hshown => isStarted_of_decode hshown h, accepts_decoded_answered hf hitem, ?_⟩
  · refine accepts_decoded_faults hf hitem clock (fun _ hcalendar => .inl hcalendar) ?_
    by_cases hstarts : f.IsStarted
    · exact .inl hstarts
    · exact .inr (.inr ⟨rfl, hstarts⟩)
  intro b operand value answer hanswer
  rw [Condition.within, Registry.evaluate_compare] at hanswer
  change (RelativeDate.resolve clock b operand >>= fun limit =>
    Comparison.withinBound b value.elements limit) = .ok answer at hanswer
  cases hlimit : RelativeDate.resolve clock b operand with
  | error fault =>
    rw [hlimit] at hanswer
    cases hanswer
  | ok limit =>
    rw [hlimit, ok_bind] at hanswer
    exact ⟨limit, rfl, Comparison.withinBound_eq_true_iff hanswer⟩

/-- An item seen in June 2025. -/
def seenInJune : Value :=
  .object [("id", .int 1), ("seen", .text "2025-06-29T12:00:00Z")]

/-- The data of a filter on what was seen after the day three days before now. -/
def lastDays : Value :=
  soleData "seen" "gt" (.object [("daysAgo", .int 3)])

theorem accepts_decoded_seenInJune :
    ∃ f, (decode {} lastDays).result = .ok f ∧
      ∃ answer, f.accepts (.standard .july) seenInJune = .ok answer := by
  have hdata : lastDays.IsJson := isJson_soleData (.object (List.forall_mem_singleton.2 (.int 3)))
  have hitem : ∀ texts : String → Prop, texts "2025-06-29T12:00:00Z" → seenInJune.IsJsonOf texts := by
    intro texts hseen
    refine .object ?_
    simp only [List.forall_mem_cons, List.not_mem_nil, false_implies, implies_true, and_true]
    exact ⟨.int 1, .text hseen⟩
  have hdecode : (decode {} lastDays).result =
      .ok { statements := statementsOf [[[("seen", .within .gt (.daysAgo 3))]]] } := result_decode rfl
  obtain ⟨-, hstarted, hanswered, -⟩ := accepts_decoded hdata (hitem _ trivial) hdecode .july
  refine ⟨_, hdecode, hanswered ?_ (hstarted rfl)⟩
  exact List.forall_mem_singleton.2 (.compare ⟨.daysAgo .gt 3, _, rfl, fun _ => ⟨⟨_, rfl⟩, hitem _ ⟨_, rfl⟩⟩⟩)

/-- A relative date may lead out of the calendar, and so may the offset of a text that is compared with a date. -/
theorem accepts_decoded_beyond :
    (∃ f, (decode {} (soleData "seen" "GT" (.object [("daysAgo", .int 800000)]))).result = .ok f ∧
      f.accepts (.standard .july) (.object [("id", .int 1)]) = .error .outOfCalendar) ∧
    ∃ f, (decode {} (soleData "seen" "GT" (.text "2025-01-01"))).result = .ok f ∧
      f.accepts (.standard .july) (.object [("seen", .text "0001-01-01T00:00:00+01:00")]) =
        .error .outOfCalendar := by
  constructor
  · exact ⟨{ statements := statementsOf [[[("seen", .within .gt (.daysAgo 800000))]]] }, result_decode rfl, rfl⟩
  · refine ⟨{ statements := statementsOf [[[("seen", .within .gt (.date { year := 2025, month := 1, day := 1 }))]]] },
      result_decode rfl, rfl⟩

end Filter

end Winnow
