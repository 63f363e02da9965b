import Winnow.Json
import Winnow.Proofs.Digits
import Winnow.Proofs.Outcome
import Winnow.Value.Display

/-!
# What JSON texts hold

A whole number with more digits than a text may have is refused where it is read, so every value that a JSON text holds
can be shown (`Json.isShown_of_read`).
-/

namespace Winnow

/-! ## Whole numbers -/

/-- Digits continue a number by no more than their places. -/
theorem Text.lt_of_readDigitsFrom {seed n : Nat} {cs : List Char} (h : readDigitsFrom seed cs = some n) :
    n < (seed + 1) * 10 ^ cs.length := by
  induction cs generalizing seed with
  | nil =>
    cases h
    simp
  | cons c cs ih =>
    obtain ⟨d, hd, h⟩ := Option.bind_eq_some_iff.1 h
    have hdigit : d < 10 := by
      unfold digitValue? at hd
      split at hd
      · next hc =>
        cases hd
        have : c.toNat ≤ 57 := (Char.isDigit_iff_toNat.1 hc).2
        omega
      · cases hd
    refine Nat.lt_of_lt_of_le (ih h) ?_
    rw [List.length_cons, Nat.pow_succ, Nat.mul_comm (10 ^ cs.length), ← Nat.mul_assoc]
    exact Nat.mul_le_mul_right _ (by omega)

namespace Json

/-- The number of a numeral can be shown. -/
theorem isShown_of_toValue {n : Numeral} {v : Value} (h : n.toValue = .ok v) : v.isShown = true := by
  unfold Numeral.toValue at h
  split at h
  · split at h
    · cases h
    · next hfew =>
      cases h
      rw [Value.isShown_int]
      cases hdigits : Text.readDigits n.whole with
      | none => cases n.negative <;> rfl
      | some size =>
        have hsize := Text.lt_of_readDigitsFrom hdigits
        rw [Nat.zero_add, Nat.one_mul] at hsize
        rw [fitsLimit_iff]
        generalize digitLimit = limit at hfew ⊢
        have hlimit : size < Nat.pow 10 limit :=
          Nat.lt_of_lt_of_le hsize (Nat.pow_le_pow_right (by decide) (Nat.le_of_not_lt hfew))
        split
        · rw [Int.natAbs_neg]
          exact hlimit
        · exact hlimit
  · cases h
    rfl

/-- A word is a value that can be shown. -/
theorem isShown_of_readWord? {cs : List Char} {found : Value × Nat} (h : readWord? cs = some found) :
    found.1.isShown = true := by
  obtain ⟨word, hword, rfl⟩ := Option.map_eq_some_iff.1 h
  have hshown : ∀ word ∈ words, word.2.isShown = true := by decide
  exact hshown word (List.mem_of_find?_eq_some hword)

/-! ## Values -/

/-- The values of an object with one more entry are its own and that of the entry. -/
theorem of_mem_insertEntry {key : String} {v : Value} {before : List (String × Value)} {entry : String × Value}
    (h : entry ∈ Value.insertEntry key v before) : entry.2 = v ∨ entry ∈ before := by
  induction before with
  | nil =>
    rw [Value.insertEntry, List.mem_singleton] at h
    exact .inl (congrArg Prod.snd h)
  | cons first rest ih =>
    rw [Value.insertEntry] at h
    split at h
    · rcases List.mem_cons.1 h with rfl | h
      · exact .inl rfl
      · exact .inr (.tail _ h)
    · rcases List.mem_cons.1 h with rfl | h
      · exact .inr (.head _)
      · exact (ih h).imp_right (.tail _)

/-- What is read with some fuel can be shown: a value, the items of a list, and the entries of an object if those before
them can be, by induction on the fuel. -/
theorem isShown_of_fuel (fuel : Nat) :
    (∀ room c v after, readValue fuel room c = .ok (v, after) → v.isShown = true) ∧
      (∀ room c items after, readItems fuel room c = .ok (items, after) → ∀ v ∈ items, v.isShown = true) ∧
      ∀ room c before entries after, readEntries fuel room c before = .ok (entries, after) →
        (∀ entry ∈ before, entry.2.isShown = true) → ∀ entry ∈ entries, entry.2.isShown = true := by
  induction fuel with
  | zero =>
    refine ⟨fun room c v after h => ?_, fun room c items after h => ?_, fun room c before entries after h => ?_⟩
    · rw [readValue] at h
      cases h
    · rw [readItems] at h
      cases h
    · rw [readEntries] at h
      cases h
  | succ fuel ih =>
    obtain ⟨hvalue, hitems, hentries⟩ := ih
    refine ⟨?_, ?_, ?_⟩
    · intro room c v after h
      rw [readValue] at h
      split at h
      · obtain ⟨_, -, h⟩ := map_eq_ok h
        cases h
        rfl
      · dsimp only at h
        split at h
        · cases h
        · split at h
          · cases h
            rfl
          · obtain ⟨⟨entries, after⟩, hread, h⟩ := map_eq_ok h
            cases h
            rw [Value.isShown_object, List.all_eq_true]
            exact hentries _ _ _ _ _ hread nofun
      · dsimp only at h
        split at h
        · cases h
        · split at h
          · cases h
            rfl
          · obtain ⟨⟨items, after⟩, hread, h⟩ := map_eq_ok h
            cases h
            rw [Value.isShown_list, List.all_eq_true]
            exact hitems _ _ _ _ hread
      · split at h
        · next hword =>
          cases h
          exact isShown_of_readWord? hword
        · split at h
          · obtain ⟨w, hnumber, h⟩ := map_eq_ok h
            cases h
            exact isShown_of_toValue hnumber
          · cases h
    · intro room c items after h
      rw [readItems] at h
      obtain ⟨⟨v, next⟩, hread, h⟩ := bind_eq_ok h
      have hv := hvalue _ _ _ _ hread
      dsimp only at h
      split at h
      · cases h
        exact List.forall_mem_singleton.2 hv
      · obtain ⟨⟨others, last⟩, hothers, h⟩ := bind_eq_ok h
        cases h
        exact List.forall_mem_cons.2 ⟨hv, hitems _ _ _ _ hothers⟩
      · cases h
    · intro room c before entries after h hbefore
      rw [readEntries] at h
      split at h
      · cases h
      · obtain ⟨⟨key, colon⟩, -, h⟩ := bind_eq_ok h
        dsimp only at h
        split at h
        · cases h
        · obtain ⟨⟨v, next⟩, hread, h⟩ := bind_eq_ok h
          have hinserted : ∀ entry ∈ Value.insertEntry (String.ofList key) v before, entry.2.isShown = true := by
            intro entry hentry
            rcases of_mem_insertEntry hentry with rfl | hentry
            · exact hvalue _ _ _ _ hread
            · exact hbefore entry hentry
          dsimp only at h
          split at h
          · cases h
            exact hinserted
          · exact hentries _ _ _ _ _ h hinserted
          · cases h

/-- The value of a JSON text can be shown. -/
theorem isShown_of_read {text : String} {v : Value} (h : read text = .ok v) : v.isShown = true := by
  unfold read at h
  dsimp only at h
  split at h
  · cases h
  · obtain ⟨⟨w, after⟩, hread, h⟩ := bind_eq_ok h
    dsimp only at h
    split at h
    · cases h
      exact (isShown_of_fuel _).1 _ _ _ _ hread
    · cases h

end Json

end Winnow
