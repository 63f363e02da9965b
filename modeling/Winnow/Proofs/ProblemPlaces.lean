import Mathlib.Data.List.Nodup
import Winnow.Proofs.Modes

/-!
# Where the problems of a filter are

The problems of data are told in the order of the document: no place is told twice, none lies inside another, and each
is one that the data has, or that of the operand of a condition that lacks it (`Filter.problems_pinpointed`).

`Place.Precedes` is the order of places that part somewhere; those that are prefixes of one another are not in it. A
collecting walk over a part of the data pinpoints its problems (`Pinpoints`) when they are in that order and lie in the
part. A walk over parts one after the other does so when each part lies in a branch before the next (`Branches`).
-/

namespace Winnow

/-! ## The order of places -/

/-- The keys of a sort in the order of a document. -/
def Decode.sortKeys : List String :=
  ["field_id", "sub_id", "sub_prop", "direction"]

/-- Steps to siblings, the first one before the second in a document: items by their position, and the parts of a filter
and of its sort in their order. -/
inductive Step.Before : Step → Step → Prop where
  | index {i j : Nat} : i < j → Before (.index i) (.index j)
  | part {name name' : String} : [name, name'].Sublist Decode.knownKeys → Before (.key name) (.key name')
  | sortPart {name name' : String} : [name, name'].Sublist Decode.sortKeys → Before (.key name) (.key name')

/-- Places that part at some step, the first one into the sibling that is before. -/
inductive Place.Precedes : Place → Place → Prop where
  | here {s t : Step} (p q : Place) : s.Before t → Precedes (s :: p) (t :: q)
  | inside (s : Step) {p q : Place} : Precedes p q → Precedes (s :: p) (s :: q)

theorem Step.Before.ne {s t : Step} (h : s.Before t) : s ≠ t := by
  rintro rfl
  cases h with
  | index h => exact Nat.lt_irrefl _ h
  | part h => simpa using h.nodup (by decide)
  | sortPart h => simpa using h.nodup (by decide)

namespace Place.Precedes

variable {p q : Place}

theorem append (front : Place) (h : Precedes p q) : Precedes (front ++ p) (front ++ q) := by
  induction front with
  | nil => exact h
  | cons s rest ih => exact .inside s ih

/-- Of two places in order neither lies in the other. -/
theorem not_prefix (h : Precedes p q) : ¬p <+: q ∧ ¬q <+: p := by
  induction h with
  | here p q hbefore =>
    simp [List.cons_prefix_cons, hbefore.ne, hbefore.ne.symm]
  | inside s _ ih =>
    simpa [List.cons_prefix_cons] using ih

theorem ne (h : Precedes p q) : p ≠ q := by
  rintro rfl
  exact h.not_prefix.1 (List.prefix_refl p)

end Place.Precedes

/-! ## The texts of places -/

/-- Whether the name of a step stands for itself in the text of a place: it is not empty, and no point or bracket is in
it. -/
def Step.IsPlain : Step → Prop
  | .key name => name ≠ "" ∧ '.' ∉ name.toList ∧ '[' ∉ name.toList
  | .index _ => True

instance (s : Step) : Decidable s.IsPlain :=
  match s with
  | .key name => inferInstanceAs (Decidable (name ≠ "" ∧ '.' ∉ name.toList ∧ '[' ∉ name.toList))
  | .index _ => .isTrue trivial

/-- Texts up to the first character at which to stop are the same in two texts that are the same. -/
theorem append_inj_of_stop {P : Char → Prop} {xs xs' ys ys' : List Char} (hxs : ∀ c ∈ xs, ¬P c)
    (hxs' : ∀ c ∈ xs', ¬P c) (hys : ∀ c ∈ ys.head?, P c) (hys' : ∀ c ∈ ys'.head?, P c) (h : xs ++ ys = xs' ++ ys') :
    xs = xs' ∧ ys = ys' := by
  induction xs generalizing xs' with
  | nil =>
    cases xs' with
    | nil => exact ⟨rfl, h⟩
    | cons c rest =>
      rw [List.nil_append] at h
      subst h
      exact absurd (hys c rfl) (hxs' c List.mem_cons_self)
  | cons c rest ih =>
    cases xs' with
    | nil =>
      rw [List.nil_append] at h
      subst h
      exact absurd (hys' c rfl) (hxs c List.mem_cons_self)
    | cons c' rest' =>
      obtain ⟨rfl, htails⟩ := List.cons.inj h
      obtain ⟨rfl, rfl⟩ := ih (fun d hd => hxs d (.tail _ hd)) (fun d hd => hxs' d (.tail _ hd)) htails
      exact ⟨rfl, rfl⟩

namespace Place

theorem toList_tailText_key (name : String) (rest : Place) :
    (tailText (.key name :: rest)).toList = '.' :: (name.toList ++ (tailText rest).toList) := by
  simp [tailText]

theorem toList_tailText_index (i : Nat) (rest : Place) :
    (tailText (.index i :: rest)).toList = '[' :: (Nat.toDigits 10 i ++ ']' :: (tailText rest).toList) := by
  simp [tailText]

/-- A text of further steps begins with a point or a bracket. -/
theorem head?_tailText (p : Place) : ∀ c ∈ (tailText p).toList.head?, c = '.' ∨ c = '[' := by
  cases p with
  | nil => simp [tailText]
  | cons s rest =>
    cases s with
    | key name => simp [toList_tailText_key]
    | index i => simp [toList_tailText_index]

/-- The text of further steps tells them: a name ends at the next point or bracket, and a position at its bracket. -/
theorem tailText_injective {p q : Place} (hp : ∀ s ∈ p, s.IsPlain) (hq : ∀ s ∈ q, s.IsPlain)
    (h : (tailText p).toList = (tailText q).toList) : p = q := by
  induction p generalizing q with
  | nil =>
    cases q with
    | nil => rfl
    | cons t q => cases t <;> simp [tailText] at h
  | cons s p ih =>
    cases q with
    | nil => cases s <;> simp [tailText] at h
    | cons t q =>
      obtain ⟨hs, hrestp⟩ := List.forall_mem_cons.1 hp
      obtain ⟨ht, hrestq⟩ := List.forall_mem_cons.1 hq
      cases s with
      | key name =>
        cases t with
        | key name' =>
          rw [toList_tailText_key, toList_tailText_key] at h
          have hstop {name : String} (hname : (Step.key name).IsPlain) :
              ∀ c ∈ name.toList, ¬(c = '.' ∨ c = '[') := by
            rintro c hc (rfl | rfl)
            · exact hname.2.1 hc
            · exact hname.2.2 hc
          obtain ⟨hname, hrest⟩ := append_inj_of_stop (P := fun c => c = '.' ∨ c = '[') (hstop hs) (hstop ht)
            (head?_tailText p) (head?_tailText q) (List.cons.inj h).2
          rw [String.toList_inj.1 hname, ih hrestp hrestq hrest]
        | index j => simp [toList_tailText_key, toList_tailText_index] at h
      | index i =>
        cases t with
        | key name' => simp [toList_tailText_key, toList_tailText_index] at h
        | index j =>
          rw [toList_tailText_index, toList_tailText_index] at h
          have hstop (n : Nat) : ∀ c ∈ Nat.toDigits 10 n, ¬c = ']' := by
            rintro c hc rfl
            exact absurd (Nat.isDigit_of_mem_toDigits (by decide) (by decide) hc) (by decide)
          obtain ⟨hdigits, hrest⟩ := append_inj_of_stop (P := fun c => c = ']') (hstop i) (hstop j) (by simp) (by simp)
            (List.cons.inj h).2
          have hindex : i = j := by simpa using congrArg (Nat.ofDigitChars 10 · 0) hdigits
          rw [hindex, ih hrestp hrestq (List.cons.inj hrest).2]

theorem text_key_ne_text_index {name : String} (h : (Step.key name).IsPlain) (j : Nat) (p q : Place) :
    text (.key name :: p) ≠ text (.index j :: q) := by
  intro htext
  have hchars : name.toList ++ (tailText p).toList = '[' :: (Nat.toDigits 10 j ++ ']' :: (tailText q).toList) := by
    simpa [text] using congrArg String.toList htext
  cases hname : name.toList with
  | nil => exact h.1 (String.toList_inj.1 hname)
  | cons c rest =>
    rw [hname] at hchars
    obtain rfl : c = '[' := (List.cons.inj hchars).1
    exact h.2.2 (hname ▸ List.mem_cons_self)

/-- Places that have steps, with names that stand for themselves, are told by their texts. -/
theorem text_injective {s t : Step} {p q : Place} (hp : ∀ u ∈ s :: p, u.IsPlain) (hq : ∀ u ∈ t :: q, u.IsPlain)
    (h : text (s :: p) = text (t :: q)) : s :: p = t :: q := by
  have hs := hp s List.mem_cons_self
  have ht := hq t List.mem_cons_self
  cases s with
  | key name =>
    cases t with
    | key name' => exact tailText_injective hp hq (by simpa [text, tailText] using congrArg String.toList h)
    | index j => exact absurd h (text_key_ne_text_index hs j p q)
  | index i =>
    cases t with
    | key name' => exact absurd h.symm (text_key_ne_text_index ht i q p)
    | index j => exact tailText_injective hp hq (congrArg String.toList h)

example : text [.key "statements", .index 0, .index 12, .key "value"] = "statements[0][12].value" := by decide

/-- Places in order do not read the same. -/
theorem Precedes.text_ne {p q : Place} (h : Precedes p q) (hp : ∀ s ∈ p, s.IsPlain) (hq : ∀ s ∈ q, s.IsPlain) :
    p.text ≠ q.text := by
  intro htext
  refine h.ne ?_
  cases h with
  | here | inside => exact text_injective hp hq htext

end Place

/-! ## Places in data -/

namespace Value

/-- The part of a value that a step leads to. -/
def part? (v : Value) : Step → Option Value
  | .key name => match v with
    | .object entries => entries.lookup name
    | _ => none
  | .index i => match v with
    | .list items => items[i]?
    | _ => none

/-- What stands at a place in a value. -/
def at? (v : Value) (place : Place) : Option Value :=
  place.foldlM part? v

theorem at?_cons (v : Value) (s : Step) (rest : Place) : v.at? (s :: rest) = (v.part? s).bind fun w => w.at? rest := rfl

/-- What is looked up and is not null is there. -/
theorem lookup_eq_some {key : String} {entries : List (String × Value)} (h : lookup key entries ≠ .null) :
    entries.lookup key = some (lookup key entries) := by
  cases hfound : entries.lookup key with
  | none => exact absurd (by rw [lookup, hfound]; rfl) h
  | some v => rw [lookup, hfound, Option.getD_some]

end Value

/-- Entries of a condition whose operator asks for parts: for conditions or for a query. -/
def AsksForParts (entries : List (String × Value)) : Prop :=
  ∃ name op, (Value.lookup "op" entries).asText? = some name ∧ Operator.ofText? name = some op ∧
    ∀ c, op ≠ .comparison c

/-- A place that data has, or that of the operand of a condition that has none although its operator asks for parts. -/
inductive PointsInto (data : Value) : Place → Prop where
  | node {place : Place} {v : Value} : data.at? place = some v → PointsInto data place
  | operand {place : Place} {entries : List (String × Value)} : data.at? place = some (.object entries) →
      entries.lookup "value" = none → AsksForParts entries → PointsInto data (place ++ [.key "value"])

/-- A place in a part of the data is a place in the data. -/
theorem PointsInto.part {data v : Value} {s : Step} {rest : Place} (h : PointsInto v rest)
    (hv : data.part? s = some v) : PointsInto data (s :: rest) := by
  have hat {place : Place} {w : Value} (hplace : v.at? place = some w) : data.at? (s :: place) = some w := by
    rw [Value.at?_cons, hv]
    exact hplace
  cases h with
  | node hplace => exact .node (hat hplace)
  | operand hplace hvalue hasks => exact .operand (hat hplace) hvalue hasks

/-- Null has no place but its own. -/
theorem PointsInto.eq_nil {rest : Place} (h : PointsInto .null rest) : rest = [] := by
  have hat {place : Place} {w : Value} (hplace : Value.null.at? place = some w) : place = [] ∧ w = .null := by
    cases place with
    | nil => exact ⟨rfl, (Option.some.inj hplace).symm⟩
    | cons s rest => cases s <;> cases hplace
  cases h with
  | node hplace => exact (hat hplace).1
  | operand hplace _ _ => cases (hat hplace).2

/-- An object without entries has no place but its own. -/
theorem not_pointsInto_cons {s : Step} {rest : Place} : ¬PointsInto (.object []) (s :: rest) := by
  have hat (s : Step) (rest : Place) : (Value.object []).at? (s :: rest) = none := by cases s <;> rfl
  intro h
  generalize hplace : s :: rest = place at h
  cases h with
  | node hnode =>
    rw [← hplace, hat] at hnode
    cases hnode
  | @operand front entries hfront _ hasks =>
    cases front with
    | nil =>
      obtain rfl : [] = entries := Value.object.inj (Option.some.inj hfront)
      obtain ⟨name, op, hname, -⟩ := hasks
      cases hname
    | cons t front =>
      rw [hat] at hfront
      cases hfront

/-! ## Problems in order -/

/-- Problems told in order about a value that stands at a place: each is at a place in the value. -/
structure Pinpoints (v : Value) (place : Place) (noted : List Problem) : Prop where
  ordered : noted.Pairwise fun p q => p.place.Precedes q.place
  inside : ∀ p ∈ noted, ∃ rest, p.place = place ++ rest ∧ (∀ s ∈ rest, s.IsPlain) ∧ PointsInto v rest

/-- Problems told in order about the parts of a value that some steps lead to. -/
structure Branches (v : Value) (place : Place) (steps : List Step) (noted : List Problem) : Prop where
  ordered : noted.Pairwise fun p q => p.place.Precedes q.place
  inside : ∀ p ∈ noted, ∃ s ∈ steps, ∃ rest,
    p.place = place ++ s :: rest ∧ (∀ t ∈ s :: rest, t.IsPlain) ∧ PointsInto v (s :: rest)

section Ordered

variable {v w : Value} {place : Place} {s : Step} {steps steps' : List Step} {noted first second : List Problem}

theorem Branches.nil (v : Value) (place : Place) (steps : List Step) : Branches v place steps [] :=
  ⟨.nil, List.forall_mem_nil _⟩

/-- Problems of parts that come before other parts come before the problems of those. -/
theorem Branches.append (h : Branches v place steps first) (h' : Branches v place steps' second)
    (hbefore : ∀ s ∈ steps, ∀ t ∈ steps', s.Before t) : Branches v place (steps ++ steps') (first ++ second) where
  ordered := by
    refine List.pairwise_append.2 ⟨h.ordered, h'.ordered, fun p hp q hq => ?_⟩
    obtain ⟨s, hs, rest, hplace, -⟩ := h.inside p hp
    obtain ⟨t, ht, rest', hplace', -⟩ := h'.inside q hq
    rw [hplace, hplace']
    exact Place.Precedes.append place (.here rest rest' (hbefore s hs t ht))
  inside := by
    refine List.forall_mem_append.2 ⟨fun p hp => ?_, fun q hq => ?_⟩
    · obtain ⟨s, hs, hrest⟩ := h.inside p hp
      exact ⟨s, List.mem_append_left steps' hs, hrest⟩
    · obtain ⟨t, ht, hrest⟩ := h'.inside q hq
      exact ⟨t, List.mem_append_right steps ht, hrest⟩

theorem Branches.pinpoints (h : Branches v place steps noted) : Pinpoints v place noted where
  ordered := h.ordered
  inside := fun p hp =>
    let ⟨s, _, rest, hrest⟩ := h.inside p hp
    ⟨s :: rest, hrest⟩

theorem Pinpoints.nil (v : Value) (place : Place) : Pinpoints v place [] :=
  (Branches.nil v place []).pinpoints

/-- A problem with a value itself. -/
theorem Pinpoints.here (v : Value) (place : Place) (cause : Cause) : Pinpoints v place [⟨place, cause⟩] where
  ordered := List.pairwise_singleton _ _
  inside := List.forall_mem_singleton.2 ⟨[], (List.append_nil place).symm, List.forall_mem_nil _, .node rfl⟩

/-- Problems of the part that a step leads to. -/
theorem Pinpoints.branch (h : Pinpoints w (place ++ [s]) noted) (hs : s.IsPlain) (hw : v.part? s = some w) :
    Branches v place [s] noted where
  ordered := h.ordered
  inside := by
    intro p hp
    obtain ⟨rest, hplace, hplain, hrest⟩ := h.inside p hp
    refine ⟨s, List.mem_cons_self, rest, ?_, List.forall_mem_cons.2 ⟨hs, hplain⟩, hrest.part hw⟩
    rw [hplace, List.append_assoc]
    rfl

/-- An object without entries has no problems in its parts. -/
theorem Branches.eq_nil (h : Branches (.object []) place steps noted) : noted = [] := by
  refine List.eq_nil_iff_forall_not_mem.2 fun p hp => ?_
  obtain ⟨s, _, rest, -, -, hrest⟩ := h.inside p hp
  exact not_pointsInto_cons hrest

/-- Problems of the operand of a condition. Where there is no operand, there is none, or the operator asks for parts. -/
theorem Pinpoints.operand {entries : List (String × Value)}
    (h : Pinpoints (Value.lookup "value" entries) (place ++ [.key "value"]) noted)
    (hmissing : entries.lookup "value" = none → noted = [] ∨ AsksForParts entries) :
    Pinpoints (.object entries) place noted := by
  have hplain : (Step.key "value").IsPlain := by decide
  cases hvalue : entries.lookup "value" with
  | some v =>
    rw [Value.lookup, hvalue] at h
    have hbranch : Branches (.object entries) place [.key "value"] noted := h.branch hplain hvalue
    exact hbranch.pinpoints
  | none =>
    rw [Value.lookup, hvalue] at h
    obtain rfl | hasks := hmissing hvalue
    · exact .nil _ _
    · refine ⟨h.ordered, fun p hp => ?_⟩
      obtain ⟨rest, hplace, -, hrest⟩ := h.inside p hp
      obtain rfl := hrest.eq_nil
      refine ⟨[.key "value"], hplace.trans (List.append_nil _), List.forall_mem_singleton.2 hplain, ?_⟩
      have hroot : (Value.object entries).at? [] = some (.object entries) := rfl
      exact .operand hroot hvalue hasks

end Ordered

/-! ## Walks -/

namespace Walk

variable {α β : Type} {P : α → List Problem → Prop} {Q : β → List Problem → Prop} {x : Walk α}

/-- What a collecting walk ends with, and the problems that it notes, have a property. -/
def Collects (P : α → List Problem → Prop) (x : Walk α) : Prop :=
  ∀ a noted, x .collect = .ok (a, noted) → P a noted

theorem Collects.pure {a : α} (h : P a []) : Collects P (pure a : Walk α) := by
  intro b noted hb
  cases hb
  exact h

theorem Collects.mono {P' : α → List Problem → Prop} (hx : Collects P x) (h : ∀ a noted, P a noted → P' a noted) :
    Collects P' x :=
  fun a noted hnoted => h a noted (hx a noted hnoted)

theorem Collects.report {place : Place} {cause : Cause} {a : α} (h : P a [⟨place, cause⟩]) :
    Collects P (Walk.report place cause a) := by
  intro b noted hb
  cases hb
  exact h

theorem Collects.reportShown {place : Place} {cause : String → Cause} {shown : Option String} {a : α}
    (h : ∀ text, P a [⟨place, cause text⟩]) : Collects P (Walk.reportShown place cause shown a) := by
  cases shown with
  | some text => exact .report (h text)
  | none => exact fun _ _ hb => by cases hb

theorem Collects.bind {f : α → Walk β} (hx : Collects P x)
    (hf : ∀ a first, P a first → Collects (fun b second => Q b (first ++ second)) (f a)) : Collects Q (x >>= f) := by
  intro b noted hb
  simp only [Bind.bind, andThen] at hb
  split at hb
  · cases hb
  · next a first hfirst =>
    split at hb
    · cases hb
    · next b' second hsecond =>
      cases hb
      exact hf a first (hx a first hfirst) b second hsecond

/-- A walk that ends with something else notes the same problems. -/
theorem Collects.map {R : List Problem → Prop} (hx : Collects (fun _ noted => R noted) x) (f : α → β) :
    Collects (fun _ noted => R noted) (x >>= fun a => Pure.pure (f a)) :=
  hx.bind fun a first hfirst => .pure (by rwa [List.append_nil])

/-- A walk over each of some items tells their problems in the order of the items. -/
theorem collects_each {items : List Value} {place : Place} {visit : Nat → Value → Walk β}
    (h : ∀ i v, (visit i v).Collects fun _ noted => Pinpoints v (place ++ [.index i]) noted) :
    (each visit items).Collects fun _ noted => Pinpoints (.list items) place noted := by
  suffices hfrom : ∀ (rest : List Value) (start : Nat), items.drop start = rest → (eachFrom visit start rest).Collects
      fun _ noted => Branches (.list items) place ((List.range' start rest.length).map .index) noted from
    fun b noted hb => (hfrom items 0 rfl b noted hb).pinpoints
  intro rest
  induction rest with
  | nil => exact fun start _ => .pure (.nil _ _ _)
  | cons v rest ih =>
    intro start hdrop
    have hv : items[start]? = some v := by
      rw [← List.head?_drop, hdrop]
      rfl
    have hrest : items.drop (start + 1) = rest := by
      rw [← List.tail_drop, hdrop]
      rfl
    refine (h start v).bind fun b first hfirst => (ih (start + 1) hrest).bind fun others second hsecond => .pure ?_
    rw [List.append_nil, List.length_cons, List.range'_succ, List.map_cons]
    have hbranch : Branches (.list items) place [.index start] first := hfirst.branch trivial hv
    refine hbranch.append hsecond (List.forall_mem_singleton.2 fun t ht => ?_)
    obtain ⟨j, hj, rfl⟩ := List.mem_map.1 ht
    exact .index (List.mem_range'_1.1 hj).1

end Walk

/-! ## Reading a filter -/

namespace Decode

variable {o : DecodeOptions}

/-- The operand of a comparison is told as wrong where it stands, and not at all when it is null. -/
theorem scalar_collects (op : Comparison) (place : Place) (value : Value) :
    (scalar o op place value).Collects fun _ noted => Pinpoints value place noted ∧ (value = .null → noted = []) := by
  unfold scalar
  split
  · split
    · exact .pure ⟨.nil _ _, fun _ => rfl⟩
    · exact .report ⟨.here _ _ _, nofun⟩
  · exact .report ⟨.here _ _ _, nofun⟩
  · exact .report ⟨.here _ _ _, nofun⟩
  · exact .pure ⟨.nil _ _, fun _ => rfl⟩
  · exact .pure ⟨.nil _ _, fun _ => rfl⟩

theorem leaf_collects {read : ConditionReader}
    (hread : ∀ data place path, (read data place path).Collects fun _ noted => Pinpoints data place noted)
    (outer : Option String) (place : Place) (data : Value) :
    (leaf o read outer place data).Collects fun _ noted => Pinpoints data place noted := by
  unfold leaf
  split
  · split
    · exact .reportShown fun _ => .here _ _ _
    · split
      · exact .reportShown fun _ => .here _ _ _
      · lift_lets
        intro full
        split
        · exact .report (.here _ _ _)
        · exact (hread _ _ _).map _
  · exact .report (.here _ _ _)

theorem query_collects {read : ConditionReader}
    (hread : ∀ data place path, (read data place path).Collects fun _ noted => Pinpoints data place noted)
    (outer : Option String) (place : Place) (data : Value) :
    (query o read outer place data).Collects fun _ noted => Pinpoints data place noted := by
  unfold query
  split
  · exact (Walk.collects_each fun i v => leaf_collects hread outer _ v).map _
  · exact .report (.here _ _ _)

/-- The problems of a condition are pinpointed, by induction on the room there is for levels of conditions. -/
theorem condition_collects (room : Nat) (data : Value) (place : Place) (path : String) :
    (condition o room data place path).Collects fun _ noted => Pinpoints data place noted := by
  induction room generalizing data place path with
  | zero => exact .reportShown fun _ => .here _ _ _
  | succ room ih =>
    unfold condition
    split
    · next entries =>
      split
      · exact .report (.here _ _ _)
      · next name hname =>
        split
        · exact .report (.here _ _ _)
        · dsimp only
          split
          · exact .report (.here _ _ _)
          · next op hop =>
            refine (scalar_collects op _ _).mono fun found noted hfound => ?_
            obtain ⟨hoperand, hnull⟩ := hfound
            refine hoperand.operand fun hmissing => .inl (hnull ?_)
            rw [Value.lookup, hmissing]
            rfl
          · next op hop =>
            have hasks : AsksForParts entries := ⟨name, _, hname, hop, fun c hc => by cases hc⟩
            split
            · next items hitems =>
              refine (Walk.collects_each fun i v => ih v _ path).map _ |>.mono fun found noted hfound => ?_
              rw [← hitems] at hfound
              exact hfound.operand fun _ => .inr hasks
            · exact .report ((Pinpoints.here _ _ _).operand fun _ => .inr hasks)
          · next op hop =>
            have hasks : AsksForParts entries := ⟨name, _, hname, hop, fun c hc => by cases hc⟩
            refine ((query_collects ih _ _ _).map _).mono fun found noted hfound => ?_
            exact hfound.operand fun _ => .inr hasks
    · exact .report (.here _ _ _)

theorem statement_collects (place : Place) (data : Value) :
    (statement o place data).Collects fun _ noted => Pinpoints data place noted := by
  unfold statement
  split
  · exact (Walk.collects_each fun i v => query_collects (condition_collects o.room) none _ v).map _
  · exact .report (.here _ _ _)

/-! ### The parts of a filter -/

variable {entries sort : List (String × Value)}

theorem statements_collects (entries : List (String × Value)) :
    (statements o entries).Collects fun _ noted => Branches (.object entries) [] [.key "statements"] noted := by
  have hplain : (Step.key "statements").IsPlain := by decide
  unfold statements
  dsimp only
  split
  · exact .pure (.nil _ _ _)
  · next items hitems =>
    refine ((Walk.collects_each fun i v => statement_collects _ v).map _).mono fun found noted hfound => ?_
    exact hfound.branch hplain hitems
  · next v _ hv => exact .report ((Pinpoints.here v _ _).branch hplain hv)

/-- A sort that is told as wrong is taken for one without entries. -/
theorem sortEntries_collects (entries : List (String × Value)) : (sortEntries entries).Collects fun sort noted =>
    (noted = [] ∧ entries.lookup "sort" = some (.object sort)) ∨
      (sort = [] ∧ Branches (.object entries) [] [.key "sort"] noted) := by
  have hplain : (Step.key "sort").IsPlain := by decide
  unfold sortEntries
  split
  · next sort hsort =>
    refine .pure (.inl ⟨rfl, ?_⟩)
    rw [Value.lookup_eq_some (by rw [hsort]; nofun), hsort]
  · split
    · next hgiven =>
      have hthere := Value.lookup_eq_some fun hnull => by rw [hnull] at hgiven; cases hgiven
      exact .report (.inr ⟨rfl, (Pinpoints.here _ _ _).branch hplain hthere⟩)
    · exact .pure (.inr ⟨rfl, .nil _ _ _⟩)

theorem sortName_collects (sort : List (String × Value)) {key : String} (hplain : (Step.key key).IsPlain) :
    (sortName sort key).Collects fun _ noted => Branches (.object sort) [.key "sort"] [.key key] noted := by
  unfold sortName
  split
  · exact .pure (.nil _ _ _)
  · next hnull =>
    split
    · exact .pure (.nil _ _ _)
    · exact .report ((Pinpoints.here _ _ _).branch hplain (Value.lookup_eq_some hnull))

theorem sortDirection_collects (sort : List (String × Value)) :
    (sortDirection sort).Collects fun _ noted => Branches (.object sort) [.key "sort"] [.key "direction"] noted := by
  have hplain : (Step.key "direction").IsPlain := by decide
  unfold sortDirection
  dsimp only
  split
  · next hgiven =>
    split
    · exact .pure (.nil _ _ _)
    · have hthere := Value.lookup_eq_some fun hnull => by rw [hnull] at hgiven; cases hgiven
      exact .reportShown fun _ => (Pinpoints.here _ _ _).branch hplain hthere
  · exact .pure (.nil _ _ _)

theorem limit_collects (entries : List (String × Value)) :
    (limit entries).Collects fun _ noted => Branches (.object entries) [] [.key "limit"] noted := by
  have hplain : (Step.key "limit").IsPlain := by decide
  unfold limit
  split
  · exact .pure (.nil _ _ _)
  · next v hv =>
    split
    · exact .pure (.nil _ _ _)
    · exact .reportShown fun _ => (Pinpoints.here v _ _).branch hplain hv

/-- Any two parts of a filter are in the order of the document. -/
theorem knownKeys_ordered : (knownKeys.map Step.key).Pairwise Step.Before :=
  List.pairwise_map.2 (List.pairwise_iff_forall_sublist.2 .part)

/-- Any two parts of a sort are in the order of the document. -/
theorem sortKeys_ordered : (sortKeys.map Step.key).Pairwise Step.Before :=
  List.pairwise_map.2 (List.pairwise_iff_forall_sublist.2 .sortPart)

/-- The problems of a whole filter are pinpointed. -/
theorem filter_collects (data : Value) :
    (filter o data).Collects fun _ noted => Pinpoints data [] noted := by
  have hplain : (Step.key "sort").IsPlain := by decide
  unfold filter
  split
  · next entries =>
    refine (statements_collects entries).bind fun _ statements hstatements => ?_
    refine (sortEntries_collects entries).bind fun sort whole hwhole => ?_
    refine (sortName_collects sort (by decide)).bind fun _ fieldId hfieldId => ?_
    refine (sortName_collects sort (by decide)).bind fun _ subId hsubId => ?_
    refine (sortName_collects sort (by decide)).bind fun _ subProp hsubProp => ?_
    refine (sortDirection_collects sort).bind fun _ direction hdirection => ?_
    refine (limit_collects entries).bind fun _ limit hlimit => .pure ?_
    obtain ⟨hbeforeSub, hbeforeProp, hbeforeDirection⟩ := by simpa [sortKeys] using sortKeys_ordered
    have hparts : Branches (.object sort) [.key "sort"] (sortKeys.map .key)
        (fieldId ++ (subId ++ (subProp ++ direction))) := by
      refine hfieldId.append (hsubId.append (hsubProp.append hdirection ?_) ?_) ?_
      all_goals simp [hbeforeSub, hbeforeProp, hbeforeDirection]
    have hsort : Branches (.object entries) [] [.key "sort"]
        (whole ++ (fieldId ++ (subId ++ (subProp ++ direction)))) := by
      obtain ⟨rfl, hthere⟩ | ⟨rfl, hwrong⟩ := hwhole
      · exact hparts.pinpoints.branch hplain hthere
      · rw [hparts.eq_nil, List.append_nil]
        exact hwrong
    obtain ⟨hbeforeSort, hbeforeLimit⟩ := by simpa [knownKeys] using knownKeys_ordered
    have hall := hstatements.append (hsort.append hlimit (by simp [hbeforeLimit])) (by simp [hbeforeSort])
    simpa using hall.pinpoints
  · exact .report (.here _ _ _)

end Decode

/-! ## All the problems -/

namespace Filter

/-- The problems of data are told in the order of the document. No two of their places read the same, and none lies in
another; each is a place that the data has, or that of the operand that a condition lacks. They are told of all data in
which every number has a text. -/
theorem problems_pinpointed (o : DecodeOptions) (data : Value) :
    (o.Tells data → ∃ noted, (problems o data).result = .ok noted) ∧
      ∀ noted, (problems o data).result = .ok noted →
        (noted.Pairwise fun p q => p.place.Precedes q.place) ∧
        (noted.Pairwise fun p q =>
          p.place.text ≠ q.place.text ∧ ¬p.place <+: q.place ∧ ¬q.place <+: p.place) ∧
        ∀ p ∈ noted, (∀ s ∈ p.place, s.IsPlain) ∧ PointsInto data p.place := by
  have hproblems : (problems o data).result = _ := Logged.result_bind (Decode.result_noteUnknownKeys data) _
  rw [hproblems]
  cases Decode.filter_agrees (o := o) data with
  | fails fault hnot hcollect _ =>
    rw [hcollect]
    exact ⟨fun htold => absurd htold hnot, fun noted hnoted => by cases hnoted⟩
  | ends found noted hcollect _ =>
    rw [hcollect]
    refine ⟨fun _ => ⟨noted, rfl⟩, ?_⟩
    intro told htold
    cases htold
    have hpinpoints : Pinpoints data [] noted := Decode.filter_collects data found noted hcollect
    have hinside : ∀ p ∈ noted, (∀ s ∈ p.place, s.IsPlain) ∧ PointsInto data p.place := by
      intro p hp
      obtain ⟨rest, hplace, hrest⟩ := hpinpoints.inside p hp
      rwa [hplace, List.nil_append]
    refine ⟨hpinpoints.ordered, hpinpoints.ordered.imp_of_mem ?_, hinside⟩
    intro p q hp hq hprecedes
    exact ⟨hprecedes.text_ne (hinside p hp).1 (hinside q hq).1, hprecedes.not_prefix⟩

end Filter

end Winnow
