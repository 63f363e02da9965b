import Winnow.Number.Shortest
import Winnow.Number.Written
import Winnow.Text.Quoted
import Winnow.Time.Iso
import Winnow.Value

/-!
# How values are shown

Two texts of a value. Its display tells its kind and is what messages show of a value that was not expected; its plain
text is what a value stands for when a text is wanted. They differ for texts, decimals, dates, identifiers and symbols.
Neither exists where a whole number that it would show has too many digits.
-/

namespace Winnow

/-- A call shown with its arguments. -/
def shownCall (name : String) (arguments : List String) : String :=
  name ++ "(" ++ ", ".intercalate arguments ++ ")"

/-- A date shown as a call. -/
def Date.display (d : Date) : String :=
  shownCall "datetime.date" [toString d.year, toString d.month, toString d.day]

/-- A distance in time shown as a call of its days, seconds and microseconds, those that are not zero. -/
def displayDistance (micros : Int) : String :=
  let days := micros / 86400000000
  let seconds := micros % 86400000000 / 1000000
  let rest := micros % 1000000
  let parts := [("days", days), ("seconds", seconds), ("microseconds", rest)].filter fun part => part.2 != 0
  shownCall "datetime.timedelta"
    (if parts.isEmpty then ["0"] else parts.map fun part => part.1 ++ "=" ++ toString part.2)

/-- An offset shown as a call, the offset zero by its name. -/
def Offset.display (o : Offset) : String :=
  if o.micros = 0 then "datetime.timezone.utc" else shownCall "datetime.timezone" [displayDistance o.micros]

/-- The arguments that show a time of day: seconds and microseconds only as far as they are not zero. -/
def TimeOfDay.shownArguments (t : TimeOfDay) : List String :=
  let tail :=
    if t.micro ≠ 0 then [toString t.second, toString t.micro]
    else if t.second ≠ 0 then [toString t.second]
    else []
  toString t.hour :: toString t.minute :: tail

/-- The argument that shows a zone. -/
def Offset.shownArgument (o : Option Offset) : List String :=
  (o.map fun offset => "tzinfo=" ++ offset.display).toList

/-- A date and time shown as a call. -/
def DateTime.display (t : DateTime) : String :=
  shownCall "datetime.datetime" ([toString t.date.year, toString t.date.month, toString t.date.day] ++
    t.time.shownArguments ++ Offset.shownArgument t.offset?)

/-- A time shown as a call. -/
def ClockTime.display (t : ClockTime) : String :=
  shownCall "datetime.time" (t.time.shownArguments ++ Offset.shownArgument t.offset?)

/-- Items between brackets. -/
def bracketed (items : List String) : String :=
  "[" ++ ", ".intercalate items ++ "]"

/-- Entries between braces. -/
def braced (entries : List String) : String :=
  "\x7b" ++ ", ".intercalate entries ++ "\x7d"

/-- Items between parentheses; a single one is followed by a comma. -/
def parenthesized : List String → String
  | [item] => "(" ++ item ++ ",)"
  | items => "(" ++ ", ".intercalate items ++ ")"

mutual

/-- The display of a value, `none` where a whole number in it has no text. -/
def Value.display : Value → Option String
  | .null => some "None"
  | .bool b => some (if b then "True" else "False")
  | .int n => writeInt? n
  | .float x => some x.toText
  | .decimal x => some (shownCall "Decimal" ["'" ++ x.toText ++ "'"])
  | .text s => some (Text.quoted s)
  | .date d => some d.display
  | .datetime t => some t.display
  | .time t => some t.display
  | .uuid canonical => some (shownCall "UUID" ["'" ++ canonical ++ "'"])
  | .symbol family name content =>
    content.display.map fun shown => "<" ++ family ++ "." ++ name ++ ": " ++ shown ++ ">"
  | .operator op => some ("<FilterOperator." ++ op.name ++ ": '" ++ op.name ++ "'>")
  | .direction d => some ("<SortDirection." ++ d.name ++ ": '" ++ d.name ++ "'>")
  | .daysAgo days => (writeInt? days).map fun shown => shownCall "DaysAgo" ["days_ago=" ++ shown]
  | .list items => (displayItems items).map bracketed
  | .tuple items => (displayItems items).map parenthesized
  | .object entries => (displayEntries entries).map braced
  | .record fields => (displayEntries fields).map braced
  | .condition c => c.display
  | .query pairs => (displayPairs pairs).map fun shown => shownCall "Query" [bracketed shown]
termination_by structural v => v

/-- The display of a condition: its operator and operand. -/
def Condition.display : Condition → Option String
  | .compare op operand => operand.display.map fun shown => shownCall "Condition" [op.name, shown]
  | .combine op members =>
    (displayItems members).map fun shown => shownCall "Condition" [op.name, parenthesized shown]
  | .nested op operand => operand.display.map fun shown => shownCall "Condition" [op.name, shown]
termination_by structural c => c

/-- The display of each of some values. -/
def displayItems : List Value → Option (List String)
  | [] => some []
  | v :: rest => v.display.bind fun shown => (displayItems rest).map (shown :: ·)
termination_by structural items => items

/-- The display of each key with its value. -/
def displayEntries : List (String × Value) → Option (List String)
  | [] => some []
  | (key, v) :: rest =>
    v.display.bind fun shown => (displayEntries rest).map ((Text.quoted key ++ ": " ++ shown) :: ·)
termination_by structural entries => entries

/-- The display of each field with its condition. -/
def displayPairs : List (String × Condition) → Option (List String)
  | [] => some []
  | (field, c) :: rest =>
    c.display.bind fun shown => (displayPairs rest).map (parenthesized [Text.quoted field, shown] :: ·)
termination_by structural pairs => pairs

end

/-- The display of a query. -/
def Query.display (q : Query) : Option String :=
  (Value.query q).display

/-- The text that a value stands for, `none` where a whole number in it has no text. -/
def Value.plainText : Value → Option String
  | .text s => some s
  | .decimal x => some x.toText
  | .date d => some d.toIso
  | .datetime t => some (String.ofList (t.isoCharsWith ' '))
  | .time t => some t.toIso
  | .uuid canonical => some canonical
  | .symbol family name _ => some (family ++ "." ++ name)
  | .operator op => some ("FilterOperator." ++ op.name)
  | .direction d => some ("SortDirection." ++ d.name)
  | .daysAgo days => (writeInt? days).map fun shown => "days_ago=" ++ shown
  | v => v.display

namespace Value

/-- Whether a value can be shown: no whole number in it has too many digits. -/
def isShown (v : Value) : Bool :=
  v.display.isSome

theorem isShown_int (n : Int) : (int n).isShown = fitsLimit n :=
  isSome_writeInt? n

/-- What can be shown has a text. -/
theorem isSome_plainText {v : Value} (h : v.isShown = true) : v.plainText.isSome = true := by
  cases v with
  | daysAgo days =>
    unfold isShown display at h
    rw [plainText]
    rw [Option.isSome_map] at h ⊢
    exact h
  | text | decimal | date | datetime | time | uuid | symbol | operator | direction => rfl
  | _ => exact h

theorem isShown_list (items : List Value) : (list items).isShown = items.all isShown := by
  rw [isShown, display, Option.isSome_map]
  induction items with
  | nil => rfl
  | cons v rest ih => cases hv : v.display <;> simp [displayItems, isShown, hv, ih]

theorem isShown_object (entries : List (String × Value)) :
    (object entries).isShown = entries.all fun entry => entry.2.isShown := by
  rw [isShown, display, Option.isSome_map]
  induction entries with
  | nil => rfl
  | cons entry rest ih =>
    obtain ⟨key, v⟩ := entry
    have hkeyed : (displayEntries rest).isSome = rest.all fun entry => entry.2.display.isSome := ih
    cases hv : v.display <;> simp [displayEntries, isShown, hv, hkeyed]

end Value

end Winnow
