import Mathlib.Data.List.Induction
import Mathlib.Data.List.Nodup
import Winnow.Proofs.Entries
import Winnow.Proofs.Grammar
import Winnow.Search.Merge

/-!
# The laws of merging

Objects form a monoid under merging as long as any two of them are of one make (`Value.Compatible`): objects under a
common key meet objects there, lists meet lists, and everything else neither. Then it does not matter which two
neighbours are merged first, and many objects can be merged in parts (`deepMerge_laws`). Where a list meets something
else it does matter, since the one overwrites the other.

Objects are compared by their keys and by what stands at each of them. So each law is one about the keys
(`keysOf_mergeEntries`) and one about the values at a key (`lookup_mergeEntries`), where a value may be missing on
either side.
-/

namespace Winnow

/-! ## Entries -/

section Keys

variable {left right : List (String × Value)}

/-- At each key stands what the two values there merge to, either of which may be missing. -/
theorem lookup_mergeEntries (hright : (keysOf right).Nodup) (left : List (String × Value)) (key : String) :
    (mergeEntries right left).lookup key =
      Option.merge (flip mergeValues) (left.lookup key) (right.lookup key) := by
  induction right generalizing left with
  | nil => simp [mergeEntries]
  | cons entry rest ih =>
    obtain ⟨k, v⟩ := entry
    obtain ⟨hnew, hrest⟩ := List.nodup_cons.1 hright
    rw [mergeEntries, ih hrest, lookup_insertEntry, lookup_cons_eq_ite]
    by_cases hkey : key = k
    · subst hkey
      rw [if_pos rfl, if_pos rfl, lookup_eq_none_iff.2 hnew]
      cases left.lookup key <;> rfl
    · rw [if_neg hkey, if_neg hkey]

/-- The keys of the left object come first, then those that only the right one has. -/
theorem keysOf_mergeEntries (hright : (keysOf right).Nodup) (left : List (String × Value)) :
    keysOf (mergeEntries right left) = keysOf left ++ (keysOf right).filter fun key => key ∉ keysOf left := by
  induction right generalizing left with
  | nil => simp [mergeEntries]
  | cons entry rest ih =>
    obtain ⟨k, v⟩ := entry
    obtain ⟨hnew, hrest⟩ := List.nodup_cons.1 hright
    rw [mergeEntries, ih hrest, keysOf_insertEntry, keysOf_cons]
    by_cases hk : k ∈ keysOf left
    · rw [if_pos hk, List.filter_cons_of_neg (by simpa using hk)]
    · rw [if_neg hk, List.filter_cons_of_pos (by simpa using hk), List.append_assoc, List.singleton_append]
      congr 2
      refine List.filter_congr fun key hkey => ?_
      have hne : key ≠ k := fun h => hnew (h ▸ hkey)
      simp [hne]

/-- The keys of three objects are in the same order whichever two neighbours are merged first. -/
theorem keysOf_mergeEntries_assoc {middle : List (String × Value)} (hmiddle : (keysOf middle).Nodup)
    (hright : (keysOf right).Nodup) (hlast : (keysOf (mergeEntries right middle)).Nodup) :
    keysOf (mergeEntries right (mergeEntries middle left)) =
      keysOf (mergeEntries (mergeEntries right middle) left) := by
  rw [keysOf_mergeEntries hright, keysOf_mergeEntries hmiddle, keysOf_mergeEntries hlast, keysOf_mergeEntries hright,
    List.filter_append, List.filter_filter, List.append_assoc]
  congr 2
  refine List.filter_congr fun key _ => ?_
  by_cases hkey : key ∈ keysOf left <;> simp [hkey]

theorem nodup_keysOf_mergeEntries (hleft : (keysOf left).Nodup) (hright : (keysOf right).Nodup) :
    (keysOf (mergeEntries right left)).Nodup := by
  rw [keysOf_mergeEntries hright]
  refine hleft.append (hright.filter _) ?_
  intro key hkey hfiltered
  simpa [hkey] using (List.mem_filter.1 hfiltered).2

end Keys

/-! ## Values of one make -/

namespace Value

/-- Whether a value is neither an object nor a list. -/
def IsAtom : Value → Prop
  | .object _ | .list _ => False
  | _ => True

/-- Two values of one make: two objects with values of one make at every common key, two lists, or two that are neither
the one nor the other. -/
inductive Compatible : Value → Value → Prop where
  | object {entries entries' : List (String × Value)} :
      (∀ key v w, entries.lookup key = some v → entries'.lookup key = some w → Compatible v w) →
      Compatible (.object entries) (.object entries')
  | list (items items' : List Value) : Compatible (.list items) (.list items')
  | atom {v w : Value} : v.IsAtom → w.IsAtom → Compatible v w

/-- A value whose objects have distinct keys, those inside objects included. -/
inductive HasDistinctKeys : Value → Prop where
  | object {entries : List (String × Value)} : (keysOf entries).Nodup →
      (∀ key v, entries.lookup key = some v → HasDistinctKeys v) → HasDistinctKeys (.object entries)
  | list (items : List Value) : HasDistinctKeys (.list items)
  | atom {v : Value} : v.IsAtom → HasDistinctKeys v

variable {a b c : Value} {entries entries' : List (String × Value)} {items : List Value}

theorem compatible_object_iff : (Value.object entries).Compatible (.object entries') ↔
    ∀ key v w, entries.lookup key = some v → entries'.lookup key = some w → v.Compatible w := by
  refine ⟨?_, .object⟩
  intro h
  cases h with
  | object h => exact h
  | atom h => exact absurd h id

theorem Compatible.exists_object (h : (Value.object entries).Compatible b) : ∃ entries', b = .object entries' := by
  cases h with
  | object _ => exact ⟨_, rfl⟩
  | atom h => exact absurd h id

theorem Compatible.exists_list (h : (Value.list items).Compatible b) : ∃ items', b = .list items' := by
  cases h with
  | list _ => exact ⟨_, rfl⟩
  | atom h => exact absurd h id

theorem Compatible.isAtom (h : a.Compatible b) (ha : a.IsAtom) : b.IsAtom := by
  cases h with
  | object | list => exact absurd ha id
  | atom _ hb => exact hb

theorem Compatible.symm (h : a.Compatible b) : b.Compatible a := by
  induction h with
  | object _ ih => exact .object fun key v w hv hw => ih key w v hw hv
  | list items items' => exact .list items' items
  | atom hv hw => exact .atom hw hv

theorem hasDistinctKeys_object_iff : (Value.object entries).HasDistinctKeys ↔
    (keysOf entries).Nodup ∧ ∀ key v, entries.lookup key = some v → v.HasDistinctKeys := by
  refine ⟨?_, fun h => .object h.1 h.2⟩
  intro h
  cases h with
  | object hdistinct hvalues => exact ⟨hdistinct, hvalues⟩
  | atom h => exact absurd h id

/-- Objects of which no entry is of another make than one with the same key. -/
theorem compatible_of_entries
    (h : ∀ entry ∈ entries, ∀ entry' ∈ entries', entry.1 = entry'.1 → entry.2.Compatible entry'.2) :
    (Value.object entries).Compatible (.object entries') :=
  .object fun _ _ _ hv hw => h _ (mem_of_lookup hv) _ (mem_of_lookup hw) rfl

theorem hasDistinctKeys_of_entries (hdistinct : (keysOf entries).Nodup)
    (h : ∀ entry ∈ entries, entry.2.HasDistinctKeys) : (Value.object entries).HasDistinctKeys :=
  .object hdistinct fun _ _ hv => h _ (mem_of_lookup hv)

end Value

/-! ## Merging values -/

section Merging

variable {a b c : Value} {left right : List (String × Value)}

open Value

/-- What is neither an object nor a list overwrites. -/
theorem mergeValues_atom (h : a.IsAtom) (left : Value) : mergeValues a left = a := by
  cases a with
  | object | list => exact absurd h id
  | _ => rfl

/-- Values that may be missing are combined in either way if those that are there are. -/
theorem merge_assoc_of {f : Value → Value → Value} {x y z : Option Value}
    (h : ∀ u v w, x = some u → y = some v → z = some w → f (f u v) w = f u (f v w)) :
    Option.merge f (Option.merge f x y) z = Option.merge f x (Option.merge f y z) := by
  rcases x with _ | u
  · rw [Option.merge_none_left, Option.merge_none_left]
  · rcases y with _ | v
    · rw [Option.merge_none_left, Option.merge_none_right]
    · rcases z with _ | w
      · rfl
      · exact congrArg some (h u v w rfl rfl rfl)

/-- Values of one make with distinct keys merge to one with distinct keys. -/
theorem hasDistinctKeys_mergeValues (hab : a.Compatible b) (ha : a.HasDistinctKeys) (hb : b.HasDistinctKeys) :
    (mergeValues b a).HasDistinctKeys := by
  induction hab with
  | object _ ih =>
    obtain ⟨hleft, hvalues⟩ := hasDistinctKeys_object_iff.1 ha
    obtain ⟨hright, hvalues'⟩ := hasDistinctKeys_object_iff.1 hb
    refine .object (nodup_keysOf_mergeEntries hleft hright) ?_
    intro key v hv
    obtain ⟨hv, -⟩ | ⟨-, hv⟩ | ⟨w, u, hw, hu, rfl⟩ := Option.merge_eq_some_iff.1 (lookup_mergeEntries hright _ _ ▸ hv)
    · exact hvalues key v hv
    · exact hvalues' key v hv
    · exact ih key w u hw hu (hvalues key w hw) (hvalues' key u hu)
  | list items items' => exact .list _
  | atom _ hatom =>
    rw [mergeValues_atom hatom]
    exact .atom hatom

/-- What is of one make with two values is so with what they merge to. -/
theorem compatible_mergeValues (hac : a.Compatible c) (hbc : b.Compatible c) (hb : b.HasDistinctKeys) :
    (mergeValues b a).Compatible c := by
  induction hac generalizing b with
  | @object left other hleft ih =>
    obtain ⟨right, rfl⟩ := hbc.symm.exists_object
    have hbc := compatible_object_iff.1 hbc
    obtain ⟨hright, hvalues⟩ := hasDistinctKeys_object_iff.1 hb
    refine .object fun key v x hv hx => ?_
    obtain ⟨hv, -⟩ | ⟨-, hv⟩ | ⟨w, u, hw, hu, rfl⟩ := Option.merge_eq_some_iff.1 (lookup_mergeEntries hright _ _ ▸ hv)
    · exact hleft key v x hv hx
    · exact hbc key v x hv hx
    · exact ih key w x hw hx (hbc key u x hu hx) (hvalues key u hu)
  | list items items' =>
    obtain ⟨items'', rfl⟩ := hbc.symm.exists_list
    exact .list _ _
  | atom _ hc =>
    have hatom := hbc.symm.isAtom hc
    rw [mergeValues_atom hatom]
    exact .atom hatom hc

/-- Of three values of one make it does not matter which two neighbours are merged first. At a key that one of three
objects lacks there is nothing to show, and at a key of all three the values there are of one make again. -/
theorem mergeValues_assoc (hab : a.Compatible b) (hbc : b.Compatible c) (ha : a.HasDistinctKeys)
    (hb : b.HasDistinctKeys) (hc : c.HasDistinctKeys) :
    mergeValues c (mergeValues b a) = mergeValues (mergeValues c b) a := by
  induction hab generalizing c with
  | @object left middle _ ih =>
    obtain ⟨right, rfl⟩ := hbc.exists_object
    have hbc := compatible_object_iff.1 hbc
    obtain ⟨hleft, hvalues⟩ := hasDistinctKeys_object_iff.1 ha
    obtain ⟨hmiddle, hvalues'⟩ := hasDistinctKeys_object_iff.1 hb
    obtain ⟨hright, hvalues''⟩ := hasDistinctKeys_object_iff.1 hc
    have hfirst := nodup_keysOf_mergeEntries hleft hmiddle
    have hlast := nodup_keysOf_mergeEntries hmiddle hright
    refine congrArg Value.object (entries_ext (nodup_keysOf_mergeEntries hfirst hright) ?_ fun key => ?_)
    · exact keysOf_mergeEntries_assoc hmiddle hright hlast
    · rw [lookup_mergeEntries hright, lookup_mergeEntries hmiddle, lookup_mergeEntries hlast,
        lookup_mergeEntries hright]
      refine merge_assoc_of fun u v w hu hv hw => ?_
      exact ih key u v hu hv (hbc key v w hv hw) (hvalues key u hu) (hvalues' key v hv) (hvalues'' key w hw)
  | list items items' =>
    obtain ⟨items'', rfl⟩ := hbc.exists_list
    exact congrArg Value.list (List.append_assoc items items' items'')
  | atom _ hatom =>
    have hlast := hbc.isAtom hatom
    rw [mergeValues_atom hlast, mergeValues_atom hlast, mergeValues_atom hlast]

end Merging

/-! ## Merging objects -/

/-- Objects with distinct keys, any two of which are of one make. -/
structure AreMergeable (objects : List (List (String × Value))) : Prop where
  distinct : ∀ entries ∈ objects, (Value.object entries).HasDistinctKeys
  compatible : objects.Pairwise fun left right => (Value.object left).Compatible (.object right)

section Objects

variable {a b c : List (String × Value)} {objects xs ys : List (List (String × Value))}

theorem deepMerge_assoc (hab : (Value.object a).Compatible (.object b)) (hbc : (Value.object b).Compatible (.object c))
    (ha : (Value.object a).HasDistinctKeys) (hb : (Value.object b).HasDistinctKeys)
    (hc : (Value.object c).HasDistinctKeys) : deepMerge (deepMerge a b) c = deepMerge a (deepMerge b c) :=
  Value.object.inj (mergeValues_assoc hab hbc ha hb hc)

theorem nil_deepMerge (ha : (keysOf a).Nodup) : deepMerge [] a = a := by
  refine (entries_ext ha ?_ fun key => ?_).symm
  · rw [deepMerge, keysOf_mergeEntries ha]
    simp
  · rw [deepMerge, lookup_mergeEntries ha, List.lookup_nil, Option.merge_none_left]

theorem deepMerge_nil (a : List (String × Value)) : deepMerge a [] = a := rfl

theorem nodup_keysOf (h : (Value.object a).HasDistinctKeys) : (keysOf a).Nodup :=
  (Value.hasDistinctKeys_object_iff.1 h).1

theorem mergeAll_concat (objects : List (List (String × Value))) (last : List (String × Value)) :
    mergeAll (objects ++ [last]) = deepMerge (mergeAll objects) last := by
  rw [mergeAll, List.foldl_append]
  rfl

/-- Some of mergeable objects are mergeable. -/
theorem AreMergeable.sublist (h : AreMergeable ys) (hsub : xs.Sublist ys) : AreMergeable xs :=
  ⟨fun entries hmem => h.distinct entries (hsub.subset hmem), h.compatible.sublist hsub⟩

/-- Objects of one make merge to one with distinct keys, which is of one make with all that they are so with. -/
theorem AreMergeable.mergeAll (h : AreMergeable objects) :
    (Value.object (mergeAll objects)).HasDistinctKeys ∧ ∀ c,
      (∀ entries ∈ objects, (Value.object entries).Compatible (.object c)) →
      (Value.object (Winnow.mergeAll objects)).Compatible (.object c) := by
  induction objects using List.reverseRecOn with
  | nil =>
    have hnil : Winnow.mergeAll [] = [] := rfl
    rw [hnil]
    exact ⟨.object List.nodup_nil (by simp), fun c _ => .object (by simp)⟩
  | append_singleton objects last ih =>
    obtain ⟨hdistinct, hcompatible⟩ := ih (h.sublist (List.sublist_append_left objects [last]))
    have hlast := h.distinct last (List.mem_append_right objects List.mem_cons_self)
    have hjoint : (Value.object (Winnow.mergeAll objects)).Compatible (.object last) :=
      hcompatible last fun entries hmem =>
        (List.pairwise_append.1 h.compatible).2.2 entries hmem last List.mem_cons_self
    rw [mergeAll_concat]
    refine ⟨hasDistinctKeys_mergeValues hjoint hdistinct hlast, fun c hc => ?_⟩
    obtain ⟨hobjects, hc⟩ := List.forall_mem_append.1 hc
    exact compatible_mergeValues (hcompatible c hobjects) (hc last List.mem_cons_self) hlast

/-- What objects merge to is of one make with what further ones do. -/
theorem AreMergeable.compatible_mergeAll (h : AreMergeable (xs ++ ys)) :
    (Value.object (Winnow.mergeAll xs)).Compatible (.object (Winnow.mergeAll ys)) := by
  have hxs := (h.sublist (List.sublist_append_left xs ys)).mergeAll.2
  have hys := (h.sublist (List.sublist_append_right xs ys)).mergeAll.2
  have hcross := (List.pairwise_append.1 h.compatible).2.2
  refine (hys _ fun last hlast => ?_).symm
  exact (hxs last fun first hfirst => hcross first hfirst last hlast).symm

/-- Further objects may be merged among themselves before they are merged into the first ones. -/
theorem mergeAll_append (h : AreMergeable (xs ++ ys)) :
    mergeAll (xs ++ ys) = deepMerge (mergeAll xs) (mergeAll ys) := by
  induction ys using List.reverseRecOn with
  | nil =>
    rw [List.append_nil]
    rfl
  | append_singleton ys last ih =>
    have hlast := h.distinct last (by simp)
    have hsingle : mergeAll [last] = last := nil_deepMerge (nodup_keysOf hlast)
    have hback : AreMergeable (ys ++ [last]) := h.sublist (List.sublist_append_right xs _)
    rw [← List.append_assoc] at h ⊢
    have hfront := h.sublist (List.sublist_append_left (xs ++ ys) [last])
    have hxs := (hfront.sublist (List.sublist_append_left xs ys)).mergeAll.1
    have hys := (hback.sublist (List.sublist_append_left ys [last])).mergeAll.1
    calc mergeAll (xs ++ ys ++ [last])
        = deepMerge (deepMerge (mergeAll xs) (mergeAll ys)) last := by rw [mergeAll_concat, ih hfront]
      _ = deepMerge (mergeAll xs) (deepMerge (mergeAll ys) last) :=
          deepMerge_assoc hfront.compatible_mergeAll (hsingle ▸ hback.compatible_mergeAll) hxs hys hlast
      _ = deepMerge (mergeAll xs) (mergeAll (ys ++ [last])) := by rw [mergeAll_concat]

end Objects

/-! ## Fragments -/

/-- A fragment as an object: lists under distinct keys, which are that of what must match and that of what must not. -/
structure IsPlainFragment (entries : List (String × Value)) : Prop where
  distinct : (keysOf entries).Nodup
  keys : ∀ key ∈ keysOf entries, key = "filter" ∨ key = "must_not"
  lists : ∀ key v, entries.lookup key = some v → ∃ items, v = .list items

/-- The items of the list at a key, none when there is no list. -/
def listAt (key : String) (entries : List (String × Value)) : List Value :=
  match entries.lookup key with
  | some (.list items) => items
  | _ => []

section Fragments

variable {entries left right : List (String × Value)} {fragments : List (List (String × Value))} {key : String}

theorem IsPlainFragment.hasDistinctKeys (h : IsPlainFragment entries) : (Value.object entries).HasDistinctKeys := by
  refine .object h.distinct fun key v hv => ?_
  obtain ⟨items, rfl⟩ := h.lists key v hv
  exact .list items

theorem isPlainFragment_nil : IsPlainFragment [] where
  distinct := List.nodup_nil
  keys := by simp
  lists := by simp

/-- Any two fragments are of one make: at a common key both have lists. -/
theorem IsPlainFragment.compatible (h : IsPlainFragment left) (h' : IsPlainFragment right) :
    (Value.object left).Compatible (.object right) := by
  refine .object fun key v w hv hw => ?_
  obtain ⟨items, rfl⟩ := h.lists key v hv
  obtain ⟨items', rfl⟩ := h'.lists key w hw
  exact .list items items'

theorem areMergeable_of_fragments (h : ∀ entries ∈ fragments, IsPlainFragment entries) : AreMergeable fragments where
  distinct := fun entries hmem => (h entries hmem).hasDistinctKeys
  compatible := List.pairwise_iff_forall_sublist.2 fun hsub =>
    (h _ (hsub.subset (by simp))).compatible (h _ (hsub.subset (by simp)))

/-- A merged fragment has the keys of both. -/
theorem mem_keysOf_deepMerge (hright : (keysOf right).Nodup) :
    key ∈ keysOf (deepMerge left right) ↔ key ∈ keysOf left ∨ key ∈ keysOf right := by
  rw [mem_keysOf_iff, mem_keysOf_iff, mem_keysOf_iff, deepMerge, lookup_mergeEntries hright, Option.isSome_merge,
    Bool.or_eq_true]

/-- The list at a key of a merged fragment is that of the left one, and behind it that of the right one. -/
theorem listAt_deepMerge (h : IsPlainFragment left) (h' : IsPlainFragment right) (key : String) :
    listAt key (deepMerge left right) = listAt key left ++ listAt key right := by
  rw [listAt, listAt, listAt, deepMerge, lookup_mergeEntries h'.distinct]
  cases hleft : left.lookup key with
  | none => rw [Option.merge_none_left]; rfl
  | some v =>
    obtain ⟨items, rfl⟩ := h.lists key v hleft
    cases hright : right.lookup key with
    | none => exact (List.append_nil items).symm
    | some w =>
      obtain ⟨items', rfl⟩ := h'.lists key w hright
      rfl

theorem isPlainFragment_deepMerge (h : IsPlainFragment left) (h' : IsPlainFragment right) :
    IsPlainFragment (deepMerge left right) where
  distinct := nodup_keysOf_mergeEntries h.distinct h'.distinct
  keys := fun key hkey => ((mem_keysOf_deepMerge h'.distinct).1 hkey).elim (h.keys key) (h'.keys key)
  lists := by
    intro key v hv
    obtain ⟨hv, -⟩ | ⟨-, hv⟩ | ⟨w, u, hw, hu, rfl⟩ :=
      Option.merge_eq_some_iff.1 (lookup_mergeEntries h'.distinct _ _ ▸ hv)
    · exact h.lists key v hv
    · exact h'.lists key v hv
    · obtain ⟨items, rfl⟩ := h.lists key w hw
      obtain ⟨items', rfl⟩ := h'.lists key u hu
      exact ⟨items ++ items', rfl⟩

/-- Fragments merge to one with the keys that some of them has, and at each key with their lists in order. -/
theorem mergeAll_fragments (h : ∀ entries ∈ fragments, IsPlainFragment entries) :
    IsPlainFragment (mergeAll fragments) ∧ ∀ key,
      (key ∈ keysOf (mergeAll fragments) ↔ ∃ entries ∈ fragments, key ∈ keysOf entries) ∧
      listAt key (mergeAll fragments) = fragments.flatMap (listAt key) := by
  induction fragments using List.reverseRecOn with
  | nil => exact ⟨isPlainFragment_nil, fun key => ⟨by simp [mergeAll], rfl⟩⟩
  | append_singleton fragments last ih =>
    obtain ⟨hinit, hlast⟩ := List.forall_mem_append.1 h
    have hlast := hlast last List.mem_cons_self
    obtain ⟨hmerged, hkeys⟩ := ih hinit
    rw [mergeAll_concat]
    refine ⟨isPlainFragment_deepMerge hmerged hlast, fun key => ⟨?_, ?_⟩⟩
    · rw [mem_keysOf_deepMerge hlast.distinct, (hkeys key).1]
      simp [or_and_right, exists_or]
    · rw [listAt_deepMerge hmerged hlast, (hkeys key).2, List.flatMap_append, List.flatMap_singleton]

end Fragments

/-! ### Fragments of clauses -/

section Clauses

variable (f g : Fragment Clause) (key : String)

open Clause (fragmentEntries)

theorem lookup_fragmentEntries : (fragmentEntries f).lookup key =
    if key = "filter" then f.filter.map fun clauses => .list (Clause.toValues clauses)
    else if key = "must_not" then f.mustNot.map fun clauses => .list (Clause.toValues clauses)
    else none := by
  obtain ⟨filter, mustNot⟩ := f
  by_cases hfilter : key = "filter"
  · subst hfilter
    rcases filter with _ | clauses <;> rcases mustNot with _ | others <;> rfl
  · by_cases hmustNot : key = "must_not"
    · subst hmustNot
      rcases filter with _ | clauses <;> rcases mustNot with _ | others <;> rfl
    · rcases filter with _ | clauses <;> rcases mustNot with _ | others <;>
        simp [fragmentEntries, Clause.listEntries, lookup_cons_eq_ite, hfilter, hmustNot]

theorem isPlainFragment_fragmentEntries : IsPlainFragment (fragmentEntries f) where
  distinct := by
    obtain ⟨filter, mustNot⟩ := f
    rcases filter with _ | clauses <;> rcases mustNot with _ | others <;>
      simp [fragmentEntries, Clause.listEntries]
  keys := by
    intro key hkey
    rw [mem_keysOf_iff, lookup_fragmentEntries] at hkey
    split at hkey
    · exact .inl ‹_›
    · split at hkey
      · exact .inr ‹_›
      · cases hkey
  lists := by
    intro key v hv
    rw [lookup_fragmentEntries] at hv
    split at hv
    · obtain ⟨clauses, -, rfl⟩ := Option.map_eq_some_iff.1 hv
      exact ⟨_, rfl⟩
    · split at hv
      · obtain ⟨clauses, -, rfl⟩ := Option.map_eq_some_iff.1 hv
        exact ⟨_, rfl⟩
      · cases hv

/-- Lists of clauses are put one behind the other as the lists that they stand for. -/
theorem map_mergeLists (xs ys : Option (List Clause)) :
    (Fragment.mergeLists xs ys).map (fun clauses => Value.list (Clause.toValues clauses)) =
      Option.merge (flip mergeValues) (xs.map fun clauses => .list (Clause.toValues clauses))
        (ys.map fun clauses => .list (Clause.toValues clauses)) := by
  rcases xs with _ | xs <;> rcases ys with _ | ys
  · rfl
  · rfl
  · rfl
  · simp [Fragment.mergeLists, flip, mergeValues, Clause.toValues_eq_map]

/-- Fragments of clauses are merged as the objects that they stand for. -/
theorem lookup_fragmentEntries_merge : (fragmentEntries (f.merge g)).lookup key =
    (deepMerge (fragmentEntries f) (fragmentEntries g)).lookup key := by
  rw [deepMerge, lookup_mergeEntries (isPlainFragment_fragmentEntries g).distinct, lookup_fragmentEntries,
    lookup_fragmentEntries, lookup_fragmentEntries]
  split
  · exact map_mergeLists f.filter g.filter
  · split
    · exact map_mergeLists f.mustNot g.mustNot
    · rfl

theorem lookup_fragmentEntries_mergeAll (fragments : List (Fragment Clause)) :
    (fragmentEntries (Fragment.mergeAll fragments)).lookup key =
      (mergeAll (fragments.map fragmentEntries)).lookup key := by
  induction fragments using List.reverseRecOn generalizing key with
  | nil => rfl
  | append_singleton fragments last ih =>
    have hlast := (isPlainFragment_fragmentEntries last).distinct
    have hmerged : Fragment.mergeAll (fragments ++ [last]) = (Fragment.mergeAll fragments).merge last := by
      rw [Fragment.mergeAll, List.foldl_append]
      rfl
    rw [hmerged, lookup_fragmentEntries_merge, List.map_append, List.map_singleton, mergeAll_concat, deepMerge,
      deepMerge, lookup_mergeEntries hlast, lookup_mergeEntries hlast, ih]

end Clauses

/-! ## The monoid -/

/-- Objects of one make with distinct keys are a monoid under merging, with the empty object as its unit, so that
objects are merged in parts as well as in one go. Fragments are always of one make; they merge to a fragment with the
keys that some of them has, and at each key with their lists in order. -/
theorem deepMerge_laws :
    (∀ a b c, AreMergeable [a, b, c] → deepMerge (deepMerge a b) c = deepMerge a (deepMerge b c)) ∧
    (∀ a, (Value.object a).HasDistinctKeys → deepMerge [] a = a ∧ deepMerge a [] = a) ∧
    (∀ xs ys, AreMergeable (xs ++ ys) → mergeAll (xs ++ ys) = deepMerge (mergeAll xs) (mergeAll ys)) ∧
    ∀ fragments, (∀ entries ∈ fragments, IsPlainFragment entries) →
      AreMergeable fragments ∧ IsPlainFragment (mergeAll fragments) ∧ ∀ key,
        (key ∈ keysOf (mergeAll fragments) ↔ ∃ entries ∈ fragments, key ∈ keysOf entries) ∧
        listAt key (mergeAll fragments) = fragments.flatMap (listAt key) := by
  refine ⟨fun a b c h => ?_, fun a ha => ?_, fun _ _ => mergeAll_append, ?_⟩
  · obtain ⟨⟨hab, -⟩, hbc⟩ := by simpa using h.compatible
    obtain ⟨ha, hb, hc⟩ := by simpa using h.distinct
    exact deepMerge_assoc hab hbc ha hb hc
  · exact ⟨nil_deepMerge (nodup_keysOf ha), deepMerge_nil a⟩
  · intro fragments h
    exact ⟨areMergeable_of_fragments h, mergeAll_fragments h⟩

/-- Three bodies with a query each, given in different places and parts. -/
def queryBodies : List (List (String × Value)) :=
  [[("query", .object [("boost", .int 1), ("filter", .list [.text "a"])])],
    [("query", .object [("filter", .list [.text "b"]), ("boost", .int 2)]), ("size", .int 10)],
    [("size", .int 20), ("query", .object [("must_not", .list [.text "c"])])]]

theorem areMergeable_queryBodies : AreMergeable queryBodies := by
  have hcompatible (m n : Int) : (Value.int m).Compatible (.int n) := .atom trivial trivial
  have hint (n : Int) : (Value.int n).HasDistinctKeys := .atom trivial
  have hone {key : String} {v : Value} (hv : v.HasDistinctKeys) : (Value.object [(key, v)]).HasDistinctKeys :=
    Value.hasDistinctKeys_of_entries (by simp) (by simpa using hv)
  have htwo {key key' : String} {v w : Value} (hne : key ≠ key') (hv : v.HasDistinctKeys) (hw : w.HasDistinctKeys) :
      (Value.object [(key, v), (key', w)]).HasDistinctKeys :=
    Value.hasDistinctKeys_of_entries (by simpa using hne) (by simpa using ⟨hv, hw⟩)
  constructor
  · simp [queryBodies, hone, htwo, hint, Value.HasDistinctKeys.list]
  · simp [queryBodies, Value.compatible_of_entries, hcompatible, Value.Compatible.list]

/-- Three fragments, the last one with a list for the key of the first. -/
def splitFragments : List (List (String × Value)) :=
  [[("filter", .list [.text "a"])], [("must_not", .list [.text "b"])], [("filter", .list [.text "c"])]]

/-- Scalars are overwritten, lists joined, and keys stay where they first came up. -/
theorem deepMerge_laws_queryBodies :
    AreMergeable queryBodies ∧ (∀ entries ∈ splitFragments, IsPlainFragment entries) ∧ ∃ left middle right,
      queryBodies = [left, middle, right] ∧
      deepMerge left (deepMerge middle right) = [("query", .object [("boost", .int 2),
        ("filter", .list [.text "a", .text "b"]), ("must_not", .list [.text "c"])]), ("size", .int 20)] ∧
      deepMerge (deepMerge left middle) right = deepMerge left (deepMerge middle right) ∧
      mergeAll [left, middle, right] = deepMerge (mergeAll [left]) (mergeAll [middle, right]) ∧
      deepMerge [] left = left ∧
      listAt "filter" (mergeAll splitFragments) = splitFragments.flatMap (listAt "filter") := by
  obtain ⟨hassoc, hunit, happend, hfragments⟩ := deepMerge_laws
  have hsplit : ∀ entries ∈ splitFragments, IsPlainFragment entries := by
    have hone (key : String) (item : Value) (hkey : key = "filter" ∨ key = "must_not") :
        IsPlainFragment [(key, .list [item])] := ⟨by simp, by simpa using hkey, by simp [lookup_cons_eq_ite]⟩
    simp [splitFragments, hone]
  obtain ⟨-, -, hlists⟩ := hfragments splitFragments hsplit
  refine ⟨areMergeable_queryBodies, hsplit, _, _, _, rfl, rfl, hassoc _ _ _ areMergeable_queryBodies,
    happend [_] [_, _] areMergeable_queryBodies, (hunit _ ?_).1, (hlists "filter").2⟩
  exact areMergeable_queryBodies.distinct _ (.head _)

end Winnow
