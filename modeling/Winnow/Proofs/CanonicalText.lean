import Winnow.Proofs.IsoText

/-!
# Canonical texts

Statements about `readCanonical?`. The lenient reader is tried first and takes a date for its midnight, and both readers
take many spellings of a date; what settles the matter is that a value counts only if it is written as the very text that
it was read from. So exactly the texts of dates, alone or with a time, are read, each as the one value that it is the
text of, but for one kind: a date and time less than a second from universal time is read as universal time, which is
written otherwise, and its text is left a text (`readCanonical?_exact`).
-/

namespace Winnow

/-- An offset is read back as it is when it is none or at least a second. -/
theorem Offset.settled_eq_iff (o : Offset) : o.settled = o ↔ o.micros = 0 ∨ 1000000 ≤ o.micros.natAbs := by
  by_cases hsmall : o.micros.natAbs < 1000000
  · have hutc : o.settled = .utc := if_pos hsmall
    constructor
    · intro h
      rw [← h, hutc]
      exact .inl rfl
    · rintro (hzero | hlarge)
      · rw [hutc]
        exact Offset.eq_of_micros hzero.symm
      · omega
  · have hsame : o.settled = o := if_neg hsmall
    exact iff_of_true hsame (.inr (by omega))

/-- A date and time is read back when it is naive, in universal time, or at least a second from it. -/
theorem DateTime.isLegible_iff (t : DateTime) :
    t.isLegible = true ↔ ∀ o, t.offset? = some o → o.micros = 0 ∨ 1000000 ≤ o.micros.natAbs := by
  rw [DateTime.isLegible, Option.all_eq_true]
  refine forall_congr' fun o => imp_congr_right fun _ => ?_
  rw [beq_iff_eq, Offset.settled_eq_iff]

/-! ## Texts that are written -/

/-- The text of a date is read as that date, though the lenient reader takes it as well. -/
theorem readCanonical?_date (d : Date) : readCanonical? d.toIso = some (.date d) := by
  have hmidnight : DateTime.isoChars ⟨d, .midnight, none⟩ ≠ d.isoChars := (isoChars_date_ne_datetime d _).symm
  have hlen : d.toIso.length = 10 := by rw [Date.toIso, String.length_ofList]; rfl
  have hchars : d.toIso.toList = d.isoChars := String.toList_ofList
  simp [readCanonical?, hlen, hchars, Iso.readDateTime?_date, Iso.readDate?_isoChars, Option.filter_some, hmidnight]

/-- A date and time is read back as it is exactly when it is legible. -/
theorem DateTime.settled_eq_iff (t : DateTime) :
    { t with offset? := t.offset?.map Offset.settled } = t ↔ t.isLegible = true := by
  obtain ⟨date, time, _ | o⟩ := t
  · simp [DateTime.isLegible]
  · simp [DateTime.isLegible]

/-- The text of a legible date with a time is read as it; no other is taken for a date at all. -/
theorem readCanonical?_datetime (t : DateTime) :
    readCanonical? t.toIso = if t.isLegible then some (.datetime t) else none := by
  have hlen : t.toIso.length ≠ 10 := by
    have := length_isoChars t
    rw [DateTime.toIso, String.length_ofList]
    omega
  have hchars : t.toIso.toList = t.isoChars := String.toList_ofList
  have hsame := t.settled_eq_iff
  simp only [readCanonical?, hchars, Iso.readDateTime?_isoChars, if_neg hlen]
  by_cases h : t.isLegible = true
  · simp [hsame.2 h, h, Option.filter_some]
  · simp [DateTime.isoChars_injective.eq_iff, hsame.not.2 h, h, Option.filter_some]

/-! ## Texts that are read -/

/-- A date that a text is read as is written as that text, and one with a time is read back from it. -/
theorem of_readCanonical {s : String} {v : Value} (h : readCanonical? s = some v) :
    (∃ t, v = .datetime t ∧ t.toIso = s ∧ t.isLegible = true) ∨ ∃ d, v = .date d ∧ d.toIso = s := by
  have hread := h
  unfold readCanonical? at hread
  split at hread
  · next t hmoment =>
    obtain ⟨-, hchars⟩ := Option.filter_eq_some_iff.1 hmoment
    -- The text is the one that the moment is written as, so reading it again settles whether that can be read.
    have hiso : t.toIso = s := by rw [DateTime.toIso, of_decide_eq_true hchars, String.ofList_toList]
    have hlegible := readCanonical?_datetime t
    rw [hiso, h] at hlegible
    cases hread
    refine .inl ⟨t, rfl, hiso, ?_⟩
    by_contra hnot
    rw [if_neg hnot] at hlegible
    cases hlegible
  · split at hread
    · obtain ⟨d, hdate, rfl⟩ := Option.map_eq_some_iff.1 hread
      obtain ⟨-, hchars⟩ := Option.filter_eq_some_iff.1 hdate
      exact .inr ⟨d, rfl, by rw [Date.toIso, of_decide_eq_true hchars, String.ofList_toList]⟩
    · cases hread

/-! ## The canonical form -/

/-- A text is read as a value exactly when that is a date, or a date and time not a fraction of a second from universal
time, whose text it is. No text is that of a date and of a date with a time, of two dates, or of two dates with times. -/
theorem readCanonical?_exact (s : String) :
    (∀ v : Value, readCanonical? s = some v ↔
      (∃ d : Date, v = .date d ∧ d.toIso = s) ∨
      ∃ t : DateTime, v = .datetime t ∧ t.toIso = s ∧
        ∀ o, t.offset? = some o → o.micros = 0 ∨ 1000000 ≤ o.micros.natAbs) ∧
    (∀ (d : Date) (t : DateTime), ¬(d.toIso = s ∧ t.toIso = s)) ∧
    {d : Date | d.toIso = s}.Subsingleton ∧ {t : DateTime | t.toIso = s}.Subsingleton := by
  refine ⟨fun v => ⟨fun h => ?_, ?_⟩, ?_, ?_, ?_⟩
  · obtain ⟨t, hv, hs, hlegible⟩ | hdate := of_readCanonical h
    · exact .inr ⟨t, hv, hs, t.isLegible_iff.1 hlegible⟩
    · exact .inl hdate
  · rintro (⟨d, rfl, rfl⟩ | ⟨t, rfl, rfl, hoffset⟩)
    · exact readCanonical?_date d
    · rw [readCanonical?_datetime, if_pos (t.isLegible_iff.2 hoffset)]
  · rintro d t ⟨hd, ht⟩
    exact isoChars_date_ne_datetime d t (String.ofList_injective (hd.trans ht.symm))
  · rintro d rfl e h
    exact Date.isoChars_injective (String.ofList_injective h.symm)
  · rintro t rfl u h
    exact DateTime.isoChars_injective (String.ofList_injective h.symm)

/-- A moment of a morning, half a second west of universal time. -/
def DateTime.halfSecondWest : DateTime :=
  ⟨{ year := 2020, month := 5, day := 17 }, { hour := 9, minute := 41, second := 26, micro := 250000 },
    some { micros := -500000 }⟩

/-- The text of a date and time half a second west of universal time is read as nothing. -/
theorem readCanonical?_halfSecondWest :
    DateTime.halfSecondWest.toIso = "2020-05-17T09:41:26.250000-00:00:00.500000" ∧
      readCanonical? DateTime.halfSecondWest.toIso = none := by
  have hillegible : DateTime.halfSecondWest.isLegible = false := by decide
  refine ⟨by decide, ?_⟩
  rw [readCanonical?_datetime, hillegible]
  rfl

/-- A date without its separators is read by the lenient reader, and is not canonical. -/
example : Iso.readDateTime? "20200517".toList = some ⟨{ year := 2020, month := 5, day := 17 }, .midnight, none⟩ ∧
    readCanonical? "20200517" = none := by
  decide

end Winnow
