import Mathlib.Logic.Basic
import Winnow.Value

/-!
# Objects by their keys

An object with distinct keys is known by the order of its keys and by what stands at each of them (`entries_ext`). An
entry that is put in takes the place of one with its key, or comes last.
-/

namespace Winnow

/-- What stands at a key of a list with one more entry in front. -/
theorem lookup_cons_eq_ite {K V : Type} [DecidableEq K] (k : K) (v : V) (rest : List (K × V)) (key : K) :
    List.lookup key ((k, v) :: rest) = if key = k then some v else rest.lookup key := by
  by_cases hkey : key = k
  · simp [hkey]
  · simp [List.lookup_cons, beq_false_of_ne hkey, hkey]

/-- The keys of an object, in order. -/
def keysOf (entries : List (String × Value)) : List String :=
  entries.map (·.1)

section Keys

variable {entries : List (String × Value)} {key : String}

@[simp] theorem keysOf_nil : keysOf [] = [] := rfl

@[simp] theorem keysOf_cons (k : String) (v : Value) (rest : List (String × Value)) :
    keysOf ((k, v) :: rest) = k :: keysOf rest := rfl

theorem lookup_eq_none_iff : entries.lookup key = none ↔ key ∉ keysOf entries := by
  induction entries with
  | nil => simp
  | cons entry rest ih =>
    obtain ⟨k, v⟩ := entry
    rw [lookup_cons_eq_ite]
    by_cases hkey : key = k <;> simp [hkey, ih]

theorem mem_keysOf_iff : key ∈ keysOf entries ↔ (entries.lookup key).isSome = true := by
  rw [← Option.ne_none_iff_isSome, Ne, lookup_eq_none_iff, not_not]

/-- Two objects are the same when their keys are, in order, and the same stands at each. -/
theorem entries_ext {others : List (String × Value)} (hdistinct : (keysOf entries).Nodup)
    (hkeys : keysOf entries = keysOf others) (h : ∀ key, entries.lookup key = others.lookup key) :
    entries = others := by
  induction entries generalizing others with
  | nil => exact (List.map_eq_nil_iff.1 hkeys.symm).symm
  | cons entry rest ih =>
    obtain ⟨k, v⟩ := entry
    cases others with
    | nil => cases hkeys
    | cons other others =>
      obtain ⟨k', w⟩ := other
      obtain ⟨rfl, hrest⟩ := List.cons.inj hkeys
      obtain ⟨hnew, hdistinct⟩ := List.nodup_cons.1 hdistinct
      have hfirst : v = w := by simpa [lookup_cons_eq_ite] using h k
      rw [hfirst, ih hdistinct hrest fun key => ?_]
      have hnew' : k ∉ keysOf others := fun hk => hnew (hrest ▸ hk)
      by_cases hkey : key = k
      · rw [hkey, lookup_eq_none_iff.2 hnew, lookup_eq_none_iff.2 hnew']
      · simpa [lookup_cons_eq_ite, hkey] using h key

theorem lookup_insertEntry (k : String) (v : Value) (entries : List (String × Value)) (key : String) :
    (Value.insertEntry k v entries).lookup key = if key = k then some v else entries.lookup key := by
  induction entries with
  | nil => rw [Value.insertEntry, lookup_cons_eq_ite]
  | cons entry rest ih =>
    obtain ⟨first, w⟩ := entry
    rw [Value.insertEntry]
    by_cases hfirst : first = k
    · by_cases hkey : key = k <;> simp [lookup_cons_eq_ite, hfirst, hkey]
    · by_cases hkey : key = first
      · simp [hfirst, hkey]
      · simp [lookup_cons_eq_ite, hfirst, hkey, ih]

theorem keysOf_insertEntry (k : String) (v : Value) (entries : List (String × Value)) :
    keysOf (Value.insertEntry k v entries) = if k ∈ keysOf entries then keysOf entries else keysOf entries ++ [k] := by
  induction entries with
  | nil => rfl
  | cons entry rest ih =>
    obtain ⟨first, w⟩ := entry
    rw [Value.insertEntry]
    by_cases hfirst : first = k
    · simp [hfirst]
    · by_cases hk : k ∈ keysOf rest <;> simp [hfirst, Ne.symm hfirst, hk, ih]

end Keys

end Winnow
