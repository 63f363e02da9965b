import Mathlib.Data.List.TakeWhile
import Winnow.Proofs.Digits
import Winnow.Temporal

/-!
# Dates and times as text, and back

Statements about `Iso.readDateTime?` and `Iso.readDate?` on the texts that dates are written as. A date is read back
from its text, and so is a date with a time, up to one thing: an offset of less than a second is written in full and
read as no distance at all (`Offset.settled`). The texts themselves tell all dates, offsets and dates with times apart
(`DateTime.isoChars_injective`).
-/

namespace Winnow

/-- An offset as it is read back from its text: one of less than a second is read as universal time. -/
def Offset.settled (o : Offset) : Offset :=
  if o.micros.natAbs < 1000000 then .utc else o

/-- Whether a date and time is read back from its text: its offset, if any, is none or at least a second. -/
def DateTime.isLegible (t : DateTime) : Bool :=
  t.offset?.all fun o => o.settled == o

namespace Iso

open Text

/-! ## Clocks -/

/-- A group of two digits before a colon, with more behind it. -/
theorem readGroups_colon {n : Nat} (hn : n < 100) (more : Nat) {colons? : Option Bool} (hc : colons? ≠ some false)
    {rest : List Char} (hrest : rest ≠ []) :
    readGroups (more + 1) colons? (padded 2 n ++ ':' :: rest) =
      (readGroups more (some true) rest).map fun (ns, tail) => (n :: ns, tail) := by
  have hempty : rest.isEmpty = false := by simpa using hrest
  have hcolons : colons?.getD true = true := by
    rcases colons? with _ | _ | _
    · rfl
    · exact absurd rfl hc
    · rfl
  rw [readGroups, takeDigits?_padded 2 hn]
  simp only [Option.bind_eq_bind, Option.bind_some, hempty, Bool.false_and, Bool.false_eq_true, ↓reduceIte,
    decide_true, hcolons, Bool.and_self]
  cases readGroups more (some true) rest <;> rfl

/-- A group of two digits at the end of the text. -/
theorem readGroups_end {n : Nat} (hn : n < 100) (more : Nat) (colons? : Option Bool) :
    readGroups (more + 1) colons? (padded 2 n) = some ([n], .complete) := by
  have h := takeDigits?_padded 2 hn []
  rw [List.append_nil] at h
  rw [readGroups, h]
  rfl

/-- A group of two digits before a fraction. -/
theorem readGroups_point {n : Nat} (hn : n < 100) (more : Nat) (colons? : Option Bool) {rest : List Char}
    (hrest : rest ≠ []) :
    readGroups (more + 1) colons? (padded 2 n ++ '.' :: rest) = some ([n], .fraction rest) := by
  have hempty : rest.isEmpty = false := by simpa using hrest
  have hpoint : ('.' = ':') = False := by decide
  rw [readGroups, takeDigits?_padded 2 hn]
  simp only [Option.bind_eq_bind, Option.bind_some, hempty, Bool.false_and, Bool.false_eq_true, ↓reduceIte, hpoint,
    decide_false, Bool.and_false, decide_true, Bool.true_or]

/-- Six digits of a fraction are its microseconds. -/
theorem readFraction?_padded {micro : Nat} (h : micro < 1000000) :
    readFraction? (padded 6 micro) = some (micro, false) := by
  have hread := takeDigits?_padded 6 h []
  rw [List.append_nil] at hread
  simp [readFraction?, hread, atEnd]

/-- A time of day is read back from its text. -/
theorem readClock?_isoChars (t : TimeOfDay) :
    readClock? t.isoChars = some (⟨t.hour, t.minute, t.second, t.micro⟩, false) := by
  have hh := t.hour_lt
  have hm := t.minute_lt
  have hs := t.second_lt
  by_cases hmicro : t.micro = 0
  · have hchars : t.isoChars = padded 2 t.hour ++ ':' :: (padded 2 t.minute ++ ':' :: padded 2 t.second) := by
      simp [TimeOfDay.isoChars, fractionChars, hmicro]
    rw [hchars, readClock?, readGroups_colon (by omega) 2 (by simp) (by simp),
      readGroups_colon (by omega) 1 (by simp) (by simp [padded]), readGroups_end (by omega)]
    simp [hmicro]
  · have hchars : t.isoChars =
        padded 2 t.hour ++ ':' :: (padded 2 t.minute ++ ':' :: (padded 2 t.second ++ '.' :: padded 6 t.micro)) := by
      simp [TimeOfDay.isoChars, fractionChars, hmicro]
    rw [hchars, readClock?, readGroups_colon (by omega) 2 (by simp) (by simp),
      readGroups_colon (by omega) 1 (by simp) (by simp), readGroups_point (by omega) 0 _ (by simp [padded])]
    simp [readFraction?_padded t.micro_lt]

/-- No character of the text of a time begins an offset. -/
theorem beginsOffset_of_mem_isoChars {t : TimeOfDay} {c : Char} (h : c ∈ t.isoChars) : beginsOffset c = false := by
  have hdigit : ∀ {width n : Nat} {c : Char}, c ∈ padded width n → beginsOffset c = false := by
    intro width n c hc
    have := isDigit_of_mem_padded hc
    simp only [beginsOffset, Bool.or_eq_false_iff, decide_eq_false_iff_not]
    refine ⟨⟨?_, ?_⟩, ?_⟩ <;> rintro rfl <;> exact absurd this (by decide)
  simp only [TimeOfDay.isoChars, fractionChars, List.mem_append, List.mem_cons] at h
  rcases h with ((h | rfl | h) | rfl | h) | h
  · exact hdigit h
  · decide
  · exact hdigit h
  · decide
  · exact hdigit h
  · split at h
    · cases h
    · rcases List.mem_cons.1 h with rfl | h
      · decide
      · exact hdigit h

/-! ## Offsets -/

/-- The clock of an offset is read back from its text: seconds are left out only when there are none. -/
theorem readClock?_offset (size : TimeOfDay) :
    readClock? (padded 2 size.hour ++ ':' :: padded 2 size.minute ++
      (if size.second = 0 ∧ size.micro = 0 then [] else ':' :: padded 2 size.second) ++ fractionChars size.micro) =
      some (⟨size.hour, size.minute, size.second, size.micro⟩, false) := by
  have hh := size.hour_lt
  have hm := size.minute_lt
  by_cases h : size.second = 0 ∧ size.micro = 0
  · have hchars : padded 2 size.hour ++ ':' :: padded 2 size.minute ++ [] ++ fractionChars 0 =
        padded 2 size.hour ++ ':' :: padded 2 size.minute := by simp [fractionChars]
    rw [if_pos h, h.1, h.2, hchars, readClock?, readGroups_colon (by omega) 2 (by simp) (by simp [padded]),
      readGroups_end (by omega)]
    rfl
  · rw [if_neg h]
    exact readClock?_isoChars size

/-- An offset is read from its sign and its clock; a clock of less than a second is that of universal time. -/
theorem readOffset?_of_clock {sign : Char} {rest : List Char} {size : TimeOfDay} (hsign : sign ≠ 'Z')
    (hclock : readClock? rest = some (⟨size.hour, size.minute, size.second, size.micro⟩, false)) :
    readOffset? (sign :: rest) =
      if size.micros < 1000000 then some .utc
      else Offset.of? (if sign = '-' then -(size.micros : Int) else size.micros) := by
  have hmicro := size.micro_lt
  have hvalue : (((size.hour * 60 + size.minute) * 60 + size.second : Nat) : Int) * 1000000 + size.micro =
      size.micros := by
    simp only [TimeOfDay.micros]
    omega
  have hzero : (size.hour * 60 + size.minute) * 60 + size.second = 0 ↔ size.micros < 1000000 := by
    simp only [TimeOfDay.micros]
    omega
  unfold readOffset?
  split
  · next heq => exact absurd (List.cons.inj heq).1 hsign
  · next heq =>
    obtain ⟨rfl, rfl⟩ := List.cons.inj heq
    simp only [hclock, Option.bind_eq_bind, Option.bind_some, Bool.false_eq_true, ↓reduceIte, hzero, hvalue]
  · next heq => cases heq

/-- The clock of an offset tells its whole distance, which is less than a day. -/
theorem micros_clock (o : Offset) : (TimeOfDay.ofMicros o.micros.natAbs).micros = o.micros.natAbs := by
  have hrange := o.micros_range
  refine TimeOfDay.micros_ofMicros ?_
  simp only [microsPerDay]
  omega

/-- An offset is read back from its text as it is settled. -/
theorem readOffset?_isoChars (o : Offset) : readOffset? o.isoChars = some o.settled := by
  have hsize := micros_clock o
  have hclock := readClock?_offset (TimeOfDay.ofMicros o.micros.natAbs)
  unfold Offset.settled Offset.isoChars
  simp only [List.cons_append] at hclock ⊢
  by_cases hneg : o.micros < 0
  · have hmicros : -(o.micros.natAbs : Int) = o.micros := by omega
    rw [if_pos hneg, readOffset?_of_clock (by decide) hclock, hsize, if_pos rfl, hmicros, Offset.of?_eq_some]
    split <;> rfl
  · have hmicros : (o.micros.natAbs : Int) = o.micros := by omega
    have hplus : ('+' = '-') = False := by decide
    rw [if_neg hneg, readOffset?_of_clock (by decide) hclock, hsize, if_neg hplus.mp, hmicros, Offset.of?_eq_some]
    split <;> rfl

/-- The text of an offset begins with its sign. -/
theorem isoChars_offset_ne_nil (o : Offset) : ∃ sign rest, o.isoChars = sign :: rest ∧ beginsOffset sign = true := by
  refine ⟨if o.micros < 0 then '-' else '+', _, rfl, ?_⟩
  split <;> decide

/-- A time with its offset is read back from its text, the offset as it is settled. -/
theorem readTime?_isoChars (t : TimeOfDay) (o : Option Offset) :
    readTime? (t.isoChars ++ Offset.isoChars? o) = some ⟨t, o.map Offset.settled⟩ := by
  have hclock : ∀ c ∈ t.isoChars, (!beginsOffset c) = true := by
    intro c hc
    rw [beginsOffset_of_mem_isoChars hc]
    rfl
  cases o with
  | none =>
    have htake : t.isoChars.takeWhile (!beginsOffset ·) = t.isoChars := List.takeWhile_eq_self_iff.2 hclock
    have hdrop : t.isoChars.dropWhile (!beginsOffset ·) = [] := List.dropWhile_eq_nil_iff.2 hclock
    simp [readTime?, Offset.isoChars?, htake, hdrop, readClock?_isoChars, TimeOfDay.of?_eq_some]
  | some o =>
    obtain ⟨sign, rest, hsplit, hsign⟩ := isoChars_offset_ne_nil o
    have htake : (t.isoChars ++ o.isoChars).takeWhile (!beginsOffset ·) = t.isoChars := by
      rw [List.takeWhile_append_of_pos hclock, hsplit]
      simp [hsign]
    have hdrop : (t.isoChars ++ o.isoChars).dropWhile (!beginsOffset ·) = o.isoChars := by
      rw [List.dropWhile_append_of_pos hclock, hsplit]
      simp [hsign]
    have hne : o.isoChars.isEmpty = false := by simp [hsplit]
    simp [readTime?, Offset.isoChars?, htake, hdrop, hne, readClock?_isoChars, readOffset?_isoChars,
      TimeOfDay.of?_eq_some]

/-! ## Dates -/

/-- The text of a date, character by character. -/
theorem isoChars_date (d : Date) : d.isoChars =
    [digitChar (d.year / 10 / 10 / 10), digitChar (d.year / 10 / 10), digitChar (d.year / 10), digitChar d.year, '-',
      digitChar (d.month / 10), digitChar d.month, '-', digitChar (d.day / 10), digitChar d.day] := rfl

/-- A month has at most 31 days. -/
theorem daysInMonth_le (year month : Nat) : daysInMonth year month ≤ 31 := by
  unfold daysInMonth
  split <;> grind

/-- A date is read back from its text. -/
theorem readDate?_isoChars (d : Date) : readDate? d.isoChars = some d := by
  have hy := d.year_range
  have hm := d.month_range
  have hd : d.day < 100 := by
    have := d.day_range
    have := daysInMonth_le d.year d.month
    omega
  have hchars : d.isoChars = padded 4 d.year ++ '-' :: (padded 2 d.month ++ '-' :: padded 2 d.day) := by
    simp [Date.isoChars]
  have hday := takeDigits?_padded 2 hd []
  rw [List.append_nil] at hday
  have hmonth : padded 2 d.month ++ '-' :: padded 2 d.day =
      digitChar (d.month / 10) :: ([digitChar d.month] ++ '-' :: padded 2 d.day) := rfl
  rw [hchars, readDate?, takeDigits?_padded 4 (by omega)]
  simp only [Option.bind_eq_bind, Option.bind_some, List.head?_cons, ↓reduceIte, List.tail_cons]
  split
  · next heq =>
    rw [hmonth] at heq
    exact absurd (List.cons.inj heq).1 (digitChar_ne (by decide) _)
  · rw [takeDigits?_padded 2 (by omega)]
    simp only [Option.bind_some, dropPrefix?, ↓reduceIte, hday]
    exact Date.of?_eq_some d

/-- The date in front of the text of a date, alone or with a time, takes ten characters. -/
theorem dateLength?_isoChars (d : Date) (rest : List Char) : dateLength? (d.isoChars ++ rest) = some 10 := by
  have hW : digitChar (d.month / 10) ≠ 'W' := digitChar_ne (by decide) _
  simp [dateLength?, isoChars_date, hW]

/-- A date alone is read as its midnight. -/
theorem readDateTime?_date (d : Date) : readDateTime? d.isoChars = some ⟨d, .midnight, none⟩ := by
  have hlen : d.isoChars.length = 10 := rfl
  have hten := dateLength?_isoChars d []
  rw [List.append_nil] at hten
  have htake : d.isoChars.take 10 = d.isoChars := List.take_of_length_le (by rw [hlen])
  have hdrop : d.isoChars.drop 10 = [] := List.drop_eq_nil_of_le (by rw [hlen])
  simp [readDateTime?, hlen, hten, htake, hdrop, readDate?_isoChars]

/-- A date with a time is read back from its text, the offset as it is settled. -/
theorem readDateTime?_isoChars (t : DateTime) :
    readDateTime? t.isoChars = some { t with offset? := t.offset?.map Offset.settled } := by
  have hchars : t.isoChars = t.date.isoChars ++ ('T' :: (t.time.isoChars ++ Offset.isoChars? t.offset?)) := by
    simp [DateTime.isoChars, DateTime.isoCharsWith]
  have hlen : t.date.isoChars.length = 10 := rfl
  have hlong : ¬(t.isoChars.length < 7) := by
    rw [hchars, List.length_append, hlen]
    omega
  have htake : t.isoChars.take 10 = t.date.isoChars := by rw [hchars, List.take_left' hlen]
  have hdrop : t.isoChars.drop 10 = 'T' :: (t.time.isoChars ++ Offset.isoChars? t.offset?) := by
    rw [hchars, List.drop_left' hlen]
  have hten : dateLength? t.isoChars = some 10 := by
    rw [hchars]
    exact dateLength?_isoChars t.date _
  simp [readDateTime?, hlong, hten, htake, hdrop, readDate?_isoChars, readTime?_isoChars]

end Iso

/-! ## Texts told apart -/

/-- Two dates are written differently: each is read off its text. -/
theorem Date.isoChars_injective : Function.Injective Date.isoChars := by
  intro d e h
  have hread := congrArg Iso.readDate? h
  rw [Iso.readDate?_isoChars, Iso.readDate?_isoChars] at hread
  exact Option.some.inj hread

theorem Offset.eq_of_micros {o p : Offset} (h : o.micros = p.micros) : o = p := by
  cases o
  cases p
  cases h
  rfl

/-- Two offsets are written differently, those of less than a second too: what is read as no distance is still written
with its sign and its clock. -/
theorem Offset.isoChars_injective : Function.Injective Offset.isoChars := by
  intro o p h
  simp only [Offset.isoChars, List.cons_append, List.cons.injEq] at h
  obtain ⟨hsign, hrest⟩ := h
  have hclock := congrArg Iso.readClock? hrest
  rw [Iso.readClock?_offset, Iso.readClock?_offset] at hclock
  simp only [Option.some.injEq, Prod.mk.injEq, Iso.ClockFields.mk.injEq, and_true] at hclock
  obtain ⟨hhour, hminute, hsecond, hmicro⟩ := hclock
  have hsize : o.micros.natAbs = p.micros.natAbs := by
    rw [← Iso.micros_clock o, ← Iso.micros_clock p]
    simp only [TimeOfDay.micros, hhour, hminute, hsecond, hmicro]
  have hneg : o.micros < 0 ↔ p.micros < 0 := by
    by_cases ho : o.micros < 0 <;> by_cases hp : p.micros < 0 <;> simp [ho, hp] at hsign ⊢
  exact Offset.eq_of_micros (by omega)

/-- An offset is written with characters, unlike none. -/
theorem Offset.isoChars?_injective : Function.Injective Offset.isoChars? := by
  intro o? p? h
  cases o? with
  | none =>
    cases p? with
    | none => rfl
    | some p =>
      obtain ⟨sign, rest, hp, -⟩ := Iso.isoChars_offset_ne_nil p
      cases h.trans hp
  | some o =>
    cases p? with
    | none =>
      obtain ⟨sign, rest, ho, -⟩ := Iso.isoChars_offset_ne_nil o
      cases ho.symm.trans h
    | some p => rw [Offset.isoChars_injective h]

/-- Two dates with times are written differently: date and time are read off the text, which leaves the offset. -/
theorem DateTime.isoChars_injective : Function.Injective DateTime.isoChars := by
  intro t u h
  have hread := congrArg Iso.readDateTime? h
  rw [Iso.readDateTime?_isoChars, Iso.readDateTime?_isoChars] at hread
  obtain ⟨date, time, o?⟩ := t
  obtain ⟨_, _, p?⟩ := u
  simp only [Option.some.injEq, DateTime.mk.injEq] at hread
  obtain ⟨rfl, rfl, -⟩ := hread
  simp only [DateTime.isoChars, DateTime.isoCharsWith, List.append_cancel_left_eq] at h
  rw [Offset.isoChars?_injective h]

/-- The text of a date with a time is longer than that of a date alone. -/
theorem length_isoChars (t : DateTime) : 10 < t.isoChars.length := by
  simp only [DateTime.isoChars, DateTime.isoCharsWith, Iso.isoChars_date, List.length_append, List.length_cons,
    List.length_nil]
  omega

/-- No text is that of a date and of a date with a time as well. -/
theorem isoChars_date_ne_datetime (d : Date) (t : DateTime) : d.isoChars ≠ t.isoChars := by
  intro h
  have hlen : d.isoChars.length = 10 := rfl
  have := length_isoChars t
  rw [← h] at this
  omega

end Winnow
