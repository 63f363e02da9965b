import Winnow.Logged
import Winnow.Walk

/-!
# Outcomes step by step

The operations of this library are written as steps, one after the other. These lemmas take the first step off a
computation that may fail, that leaves events behind, or that walks over data.
-/

namespace Winnow

variable {ε α β : Type}

@[simp] theorem ok_bind (a : α) (f : α → Except ε β) : (Except.ok a >>= f) = f a := rfl

@[simp] theorem pure_eq_ok (a : α) : (pure a : Except ε α) = .ok a := rfl

@[simp] theorem map_ok (f : α → β) (a : α) : (Except.ok a : Except ε α).map f = .ok (f a) := rfl

/-- A computation that succeeds does so in both of its steps. -/
theorem bind_eq_ok {x : Except ε α} {f : α → Except ε β} {b : β} (h : (x >>= f) = .ok b) :
    ∃ a, x = .ok a ∧ f a = .ok b := by
  cases x with
  | error e => cases h
  | ok a => exact ⟨a, rfl, h⟩

/-- What a computation that succeeds is turned into is made of its answer. -/
theorem map_eq_ok {x : Except ε α} {f : α → β} {b : β} (h : x.map f = .ok b) : ∃ a, x = .ok a ∧ f a = b := by
  cases x with
  | error e => cases h
  | ok a => exact ⟨a, rfl, Except.ok.inj h⟩

/-- What a step over each of some items gives is the answer for one of them. -/
theorem mem_of_mapM_ok {f : α → Except ε β} {items : List α} {out : List β} (h : items.mapM f = .ok out) {b : β}
    (hb : b ∈ out) : ∃ a ∈ items, f a = .ok b := by
  induction items generalizing out with
  | nil =>
    rw [List.mapM_nil] at h
    cases h
    cases hb
  | cons a rest ih =>
    rw [List.mapM_cons] at h
    obtain ⟨first, hfirst, h⟩ := bind_eq_ok h
    obtain ⟨others, hothers, h⟩ := bind_eq_ok h
    cases h
    rcases List.mem_cons.1 hb with rfl | hb
    · exact ⟨a, .head _, hfirst⟩
    · obtain ⟨c, hc, hfc⟩ := ih hothers hb
      exact ⟨c, .tail _ hc, hfc⟩

/-- A step over each of some items none of which fails. -/
theorem mapM_ok {f : α → Except ε β} {g : α → β} {items : List α} (h : ∀ a ∈ items, f a = .ok (g a)) :
    items.mapM f = .ok (items.map g) := by
  induction items with
  | nil => rfl
  | cons a rest ih =>
    rw [List.mapM_cons, h a List.mem_cons_self, ih fun b hb => h b (List.mem_cons_of_mem a hb)]
    rfl

/-- Steps that agree on each of some items. -/
theorem mapM_congr {f g : α → Except ε β} {items : List α} (h : ∀ a ∈ items, f a = g a) :
    items.mapM f = items.mapM g := by
  induction items with
  | nil => rfl
  | cons a rest ih => rw [List.mapM_cons, List.mapM_cons, h a (.head _), ih fun b hb => h b (.tail _ hb)]

namespace Logged

@[simp] theorem result_pure (a : α) : (pure a : Logged α).result = .ok a := rfl

@[simp] theorem result_ofResult (x : Except Fault α) : (ofResult x).result = x := rfl

@[simp] theorem result_record (event : Event) : (record event).result = .ok () := rfl

/-- After a first step that succeeds, the outcome is that of the second. -/
theorem result_bind {x : Logged α} {a : α} (h : x.result = .ok a) (f : α → Logged β) :
    (x >>= f).result = (f a).result := by
  simp only [bind, andThen, h]

/-- A first step that fails is the outcome. -/
theorem result_bind_error {x : Logged α} {fault : Fault} (h : x.result = .error fault) (f : α → Logged β) :
    (x >>= f).result = .error fault := by
  simp only [bind, andThen, h]

/-- An operation that succeeds does so in both of its steps. -/
theorem result_bind_eq_ok {x : Logged α} {f : α → Logged β} {b : β} (h : (x >>= f).result = .ok b) :
    ∃ a, x.result = .ok a ∧ (f a).result = .ok b := by
  cases hx : x.result with
  | error fault =>
    rw [result_bind_error hx] at h
    cases h
  | ok a =>
    rw [result_bind hx] at h
    exact ⟨a, rfl, h⟩

/-- The events of two steps are those of the first and then those of the second. -/
theorem events_bind {x : Logged α} {a : α} (h : x.result = .ok a) (f : α → Logged β) :
    (x >>= f).events = x.events ++ (f a).events := by
  simp only [bind, andThen, h]

/-! ### What an operation ends with -/

section Yields

variable {P : α → Prop} {Q : β → Prop}

/-- What an operation ends with, unless it fails, has a property. -/
def Yields (P : α → Prop) (x : Logged α) : Prop :=
  ∀ a, x.result = .ok a → P a

theorem Yields.pure {a : α} (h : P a) : Yields P (pure a : Logged α) := by
  intro b hb
  cases hb
  exact h

theorem Yields.fail (fault : Fault) : Yields P (Logged.fail fault) := by
  intro b hb
  cases hb

theorem Yields.bind {x : Logged α} {f : α → Logged β} (hx : Yields P x) (hf : ∀ a, P a → Yields Q (f a)) :
    Yields Q (x >>= f) := by
  intro b hb
  obtain ⟨a, ha, hb⟩ := result_bind_eq_ok hb
  exact hf a (hx a ha) b hb

/-- An operation ends with something, whatever it is. -/
theorem Yields.any (x : Logged α) : Yields (fun _ => True) x :=
  fun _ _ => trivial

end Yields

/-! ### What an operation leaves behind -/

section Leaves

variable {before after : List Event}

/-- The events that an operation leaves behind, unless it fails. -/
def Leaves (events : List Event) (x : Logged α) : Prop :=
  ∀ a, x.result = .ok a → x.events = events

theorem Leaves.pure (a : α) : Leaves [] (pure a : Logged α) :=
  fun _ _ => rfl

theorem Leaves.ofResult (x : Except Fault α) : Leaves [] (Logged.ofResult x) :=
  fun _ _ => rfl

theorem Leaves.fail (events : List Event) (fault : Fault) : Leaves events (Logged.fail fault : Logged α) := by
  intro b hb
  cases hb

/-- Two steps leave the events of both behind; the second is known to follow on what the first ends with. -/
theorem Leaves.bind {x : Logged α} {f : α → Logged β} (hx : Leaves before x)
    (hf : ∀ a, x.result = .ok a → Leaves after (f a)) : Leaves (before ++ after) (x >>= f) := by
  intro b hb
  obtain ⟨a, ha, hb⟩ := result_bind_eq_ok hb
  rw [events_bind ha, hx a ha, hf a ha b hb]

/-- A second step that leaves nothing behind. -/
theorem Leaves.then {x : Logged α} {f : α → Logged β} (hx : Leaves before x)
    (hf : ∀ a, x.result = .ok a → Leaves [] (f a)) : Leaves before (x >>= f) := by
  rw [← List.append_nil before]
  exact hx.bind hf

end Leaves

end Logged

namespace Walk

@[simp] theorem pure_bind (a : α) (f : α → Walk β) : ((pure a : Walk α) >>= f) = f a := by
  funext mode
  simp only [bind, andThen, pure]
  cases f a mode with
  | error p => rfl
  | ok b => simp

end Walk

end Winnow
