import Winnow.Value.Display

/-!
# Values as JSON text

A value written as JSON in ASCII. What JSON has no form for is written as its plain text in quotes.
-/

namespace Winnow

/-- A floating-point number in JSON, with words for infinity and NaN. -/
def Binary64.jsonText : Binary64 → String
  | nan => "NaN"
  | infinite negative => if negative then "-Infinity" else "Infinity"
  | x => x.toText

mutual

/-- A value as JSON, `none` where a whole number in it has no text. -/
def Value.jsonText : Value → Option String
  | .null => some "null"
  | .bool b => some (if b then "true" else "false")
  | .int n => writeInt? n
  | .float x => some x.jsonText
  | .text s => some (Text.jsonString s)
  | .operator op => some (Text.jsonString op.name)
  | .direction d => some (Text.jsonString d.name)
  | .list items => (jsonItems items).map bracketed
  | .tuple items => (jsonItems items).map bracketed
  | .object entries => (jsonEntries entries).map braced
  | v => v.plainText.map Text.jsonString
termination_by structural v => v

/-- Each of some values as JSON. -/
def jsonItems : List Value → Option (List String)
  | [] => some []
  | v :: rest => v.jsonText.bind fun shown => (jsonItems rest).map (shown :: ·)
termination_by structural items => items

/-- Each key with its value as JSON. -/
def jsonEntries : List (String × Value) → Option (List String)
  | [] => some []
  | (key, v) :: rest =>
    v.jsonText.bind fun shown => (jsonEntries rest).map ((Text.jsonString key ++ ": " ++ shown) :: ·)
termination_by structural entries => entries

end

namespace Value

/-- Whether a value can be written as JSON: no whole number in it has too many digits. -/
def isSpelled (v : Value) : Bool :=
  v.jsonText.isSome

theorem isSpelled_int (n : Int) : (int n).isSpelled = fitsLimit n :=
  isSome_writeInt? n

theorem isSpelled_list (items : List Value) : (list items).isSpelled = items.all isSpelled := by
  rw [isSpelled, jsonText, Option.isSome_map]
  induction items with
  | nil => rfl
  | cons v rest ih => cases hv : v.jsonText <;> simp [jsonItems, isSpelled, hv, ih]

theorem isSpelled_object (entries : List (String × Value)) :
    (object entries).isSpelled = entries.all fun entry => entry.2.isSpelled := by
  rw [isSpelled, jsonText, Option.isSome_map]
  induction entries with
  | nil => rfl
  | cons entry rest ih =>
    obtain ⟨key, v⟩ := entry
    have hkeyed : (jsonEntries rest).isSome = rest.all fun entry => entry.2.jsonText.isSome := ih
    cases hv : v.jsonText <;> simp [jsonEntries, isSpelled, hv, hkeyed]

end Value

end Winnow
