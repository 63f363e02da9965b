/-!
# Lone units

A JSON text may name one half of a surrogate pair without the other, a unit that is no character. So that nothing of a
text is lost, such a lone unit is held as a character of the fifth plane, where no character is ever assigned: each of
the 2048 units has one of its own, by `loneUnit?_loneChar`, and is written as the unit again.
-/

namespace Winnow.Text

/-- Whether a unit is half of a pair. -/
def isHalf (unit : Nat) : Bool :=
  0xD800 ≤ unit && unit < 0xE000

/-- The character that holds a lone unit. -/
def loneChar (unit : Nat) : Char :=
  Char.ofNat (0x50000 + unit)

/-- The lone unit that a character holds. -/
def loneUnit? (c : Char) : Option Nat :=
  if isHalf (c.toNat - 0x50000) then some (c.toNat - 0x50000) else none

theorem loneUnit?_loneChar {unit : Nat} (h : isHalf unit = true) : loneUnit? (loneChar unit) = some unit := by
  simp only [isHalf, Bool.and_eq_true, decide_eq_true_eq] at h
  have valid : (0x50000 + unit).isValidChar := .inr ⟨by omega, by omega⟩
  have held : loneChar unit = Char.ofNatAux (0x50000 + unit) valid := dif_pos valid
  have toNat : (loneChar unit).toNat = 0x50000 + unit := by
    rw [held]
    rfl
  simp [loneUnit?, toNat, isHalf, h.1, h.2]

/-- Whether a text holds a lone unit. -/
def holdsLone (cs : List Char) : Bool :=
  cs.any fun c => (loneUnit? c).isSome

end Winnow.Text
