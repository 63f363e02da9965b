import Winnow.Proofs.Translation

/-!
# Choices that are not empty

Only the clause of a statement asks for at least one of some clauses. So where no statement is without an alternative,
no clause of the translation leaves a document nothing to match (`Translator.offersChoice_translateStatements`),
whatever the conditions hold.
-/

namespace Winnow

/-! ## Clauses -/

mutual

/-- Whether there are some clauses wherever a clause asks for at least one of them, at any depth. -/
def Clause.OffersChoice : Clause → Prop
  | .term _ _ | .present _ | .range _ _ _ | .startsWith _ _ => True
  | .nested _ query => OffersInFragment query
  | .best queries => OffersInClauses queries
  | .bool fragment => OffersInFragment fragment
  | .anyOf should => should ≠ [] ∧ OffersInClauses should
termination_by structural c => c

/-- Whether every clause of a fragment offers a choice. -/
def OffersInFragment : Fragment Clause → Prop
  | ⟨filter, mustNot⟩ => OffersInList filter ∧ OffersInList mustNot
termination_by structural f => f

/-- Whether every clause of a list that may be absent offers a choice. -/
def OffersInList : Option (List Clause) → Prop
  | none => True
  | some clauses => OffersInClauses clauses
termination_by structural clauses => clauses

/-- Whether every one of some clauses offers a choice. -/
def OffersInClauses : List Clause → Prop
  | [] => True
  | c :: rest => c.OffersChoice ∧ OffersInClauses rest
termination_by structural clauses => clauses

end

/-- Whether every clause of a fragment offers a choice. -/
def Fragment.OffersChoice (f : Fragment Clause) : Prop :=
  OffersInFragment f

theorem offersInClauses_iff {clauses : List Clause} : OffersInClauses clauses ↔ ∀ c ∈ clauses, c.OffersChoice := by
  induction clauses with
  | nil => exact ⟨fun _ => List.forall_mem_nil _, fun _ => trivial⟩
  | cons c rest ih => rw [OffersInClauses, ih, List.forall_mem_cons]

theorem offersInClauses_append {clauses others : List Clause} (h : OffersInClauses clauses)
    (hothers : OffersInClauses others) : OffersInClauses (clauses ++ others) := by
  refine offersInClauses_iff.2 fun c hc => ?_
  rcases List.mem_append.1 hc with hc | hc
  · exact offersInClauses_iff.1 h c hc
  · exact offersInClauses_iff.1 hothers c hc

namespace Fragment

theorem offersChoice_empty : OffersChoice {} :=
  ⟨trivial, trivial⟩

theorem offersInList_mergeLists {xs ys : Option (List Clause)} (hx : OffersInList xs) (hy : OffersInList ys) :
    OffersInList (mergeLists xs ys) := by
  cases xs with
  | none => exact hy
  | some clauses =>
    cases ys with
    | none => exact hx
    | some others => exact offersInClauses_append hx hy

theorem OffersChoice.merge {f g : Fragment Clause} (hf : f.OffersChoice) (hg : g.OffersChoice) :
    (f.merge g).OffersChoice := by
  obtain ⟨filter, mustNot⟩ := f
  obtain ⟨filter', mustNot'⟩ := g
  exact ⟨offersInList_mergeLists hf.1 hg.1, offersInList_mergeLists hf.2 hg.2⟩

theorem offersChoice_must {c : Clause} (h : c.OffersChoice) : (must c).OffersChoice :=
  ⟨⟨h, trivial⟩, trivial⟩

theorem offersChoice_exclude {c : Clause} (h : c.OffersChoice) : (exclude c).OffersChoice :=
  ⟨trivial, h, trivial⟩

/-- The alternatives that a fragment is split into offer a choice when it does. -/
theorem OffersChoice.alternatives {f : Fragment Clause} (h : f.OffersChoice) : OffersInClauses f.alternatives := by
  unfold Fragment.alternatives
  split
  · exact h.1
  · exact ⟨h, trivial⟩

end Fragment

theorem Comparison.offersChoice_translate {op : Comparison} {field : String} {operand : Value}
    {f : Fragment Clause} (h : op.translate field operand = some f) : f.OffersChoice := by
  unfold translate at h
  split at h
  case h_5 =>
    obtain ⟨limit, -, rfl⟩ := Option.map_eq_some_iff.1 h
    exact Fragment.offersChoice_must trivial
  all_goals cases h
  · exact Fragment.offersChoice_exclude trivial
  · exact Fragment.offersChoice_must trivial
  · exact Fragment.offersChoice_must trivial
  · exact Fragment.offersChoice_exclude trivial
  · exact Fragment.offersChoice_must trivial

namespace Translator

variable (t : Translator)

/-! ## Conditions

A condition asks for at least one of its alternatives by the best of them, which is another clause, so whatever it holds
its fragment offers a choice. -/

mutual

theorem offersChoice_translateOn (field : String) (depth : Nat) :
    (c : Condition) → (t.translateOn field depth c).Yields Fragment.OffersChoice
  | .compare op operand => by
    rw [translateOn]
    split
    · exact fun f hf => Comparison.offersChoice_translate (Fault.eq_some_of_ofWriting hf)
    · exact .fail _
  | .combine op members => by
    rw [translateOn.eq_def]
    dsimp only
    split
    · cases op with
      | all => exact offersChoice_translateAll field depth members {} Fragment.offersChoice_empty
      | any =>
        dsimp only
        split
        · exact .pure ⟨trivial, trivial⟩
        · exact (offersChoice_translateAny field depth members).bind fun _ h => .pure (Fragment.offersChoice_must h)
    · exact .fail _
  | .nested op operand => by
    rw [translateOn]
    split
    · refine (Logged.Yields.any _).bind fun inner _ => ?_
      refine (offersChoice_translateOperand field inner operand).bind fun query h => ?_
      cases op with
      | find => exact .pure (Fragment.offersChoice_must h)
      | nfind => exact .pure (Fragment.offersChoice_exclude h)
    · exact .fail _
termination_by structural c => c

theorem offersChoice_translateAll (field : String) (depth : Nat) : (members : List Value) →
    (before : Fragment Clause) → before.OffersChoice →
    (t.translateAll field depth members before).Yields Fragment.OffersChoice
  | [], before, h => by
    rw [translateAll]
    exact .pure h
  | v :: rest, before, h => by
    rw [translateAll]
    refine (Logged.Yields.any _).bind fun inner _ => ?_
    refine (offersChoice_translateMember field inner v).bind fun fragment hfragment => ?_
    exact offersChoice_translateAll field depth rest (before.merge fragment) (h.merge hfragment)
termination_by structural members => members

theorem offersChoice_translateAny (field : String) (depth : Nat) :
    (members : List Value) → (t.translateAny field depth members).Yields OffersInClauses
  | [] => by
    rw [translateAny]
    exact .pure trivial
  | v :: rest => by
    rw [translateAny]
    refine (Logged.Yields.any _).bind fun inner _ => ?_
    refine (offersChoice_translateMember field inner v).bind fun fragment hfragment => ?_
    refine (offersChoice_translateAny field depth rest).bind fun clauses hclauses => ?_
    exact .pure (offersInClauses_append hfragment.alternatives hclauses)
termination_by structural members => members

theorem offersChoice_translateMember (field : String) (depth : Nat) :
    (v : Value) → (t.translateMember field depth v).Yields Fragment.OffersChoice
  | .condition c => offersChoice_translateOn field depth c
  | .null | .bool _ | .int _ | .float _ | .decimal _ | .text _ | .date _ | .datetime _ | .time _ | .uuid _
  | .symbol _ _ _ | .operator _ | .direction _ | .daysAgo _ | .list _ | .tuple _ | .object _ | .record _ | .query _ =>
    .fail _
termination_by structural v => v

theorem offersChoice_translateOperand (path : String) (depth : Nat) :
    (v : Value) → (t.translateOperand path depth v).Yields Fragment.OffersChoice
  | .query pairs => offersChoice_translatePairs path depth pairs {} Fragment.offersChoice_empty
  | .null | .bool _ | .int _ | .float _ | .decimal _ | .text _ | .date _ | .datetime _ | .time _ | .uuid _
  | .symbol _ _ _ | .operator _ | .direction _ | .daysAgo _ | .list _ | .tuple _ | .object _ | .record _
  | .condition _ => .fail _
termination_by structural v => v

theorem offersChoice_translatePairs (path : String) (depth : Nat) : (pairs : List (String × Condition)) →
    (before : Fragment Clause) → before.OffersChoice →
    (t.translatePairs path depth pairs before).Yields Fragment.OffersChoice
  | [], before, h => by
    rw [translatePairs]
    exact .pure h
  | (field, c) :: rest, before, h => by
    rw [translatePairs]
    refine (Logged.Yields.any _).bind fun indexed _ => ?_
    refine (offersChoice_translateOn indexed depth c).bind fun fragment hfragment => ?_
    exact offersChoice_translatePairs path depth rest (before.merge fragment) (h.merge hfragment)
termination_by structural pairs => pairs

end

/-! ## Statements -/

/-- A statement has a fragment for each of its alternatives. -/
theorem offersChoice_translateAlternatives (statement : Statement) :
    (t.translateAlternatives statement).Yields fun fragments =>
      fragments.length = statement.length ∧ ∀ f ∈ fragments, f.OffersChoice := by
  induction statement with
  | nil =>
    rw [translateAlternatives]
    exact .pure ⟨rfl, List.forall_mem_nil _⟩
  | cons query rest ih =>
    rw [translateAlternatives]
    refine (offersChoice_translateOperand t "" 0 query).bind fun fragment hfragment => ?_
    refine ih.bind fun fragments hfragments => ?_
    exact .pure ⟨congrArg (· + 1) hfragments.1, List.forall_mem_cons.2 ⟨hfragment, hfragments.2⟩⟩

theorem offersChoice_statementClause {fragments : List (Fragment Clause)} (hsome : fragments ≠ [])
    (h : ∀ f ∈ fragments, f.OffersChoice) : (statementClause fragments).OffersChoice := by
  unfold statementClause
  split
  · exact h _ (.head _)
  · exact ⟨fun hnil => hsome (List.map_eq_nil_iff.1 hnil), offersInClauses_iff.2 (List.forall_mem_map.2 h)⟩

theorem offersChoice_translateEach {statements : List Statement} (h : ∀ statement ∈ statements, statement ≠ []) :
    (t.translateEach statements).Yields fun clauses => ∀ c ∈ clauses, c.OffersChoice := by
  induction statements with
  | nil =>
    rw [translateEach]
    exact .pure (List.forall_mem_nil _)
  | cons statement rest ih =>
    rw [translateEach]
    refine (offersChoice_translateAlternatives t statement).bind fun fragments hfragments => ?_
    have hsome : fragments ≠ [] := by
      intro hnil
      rw [hnil] at hfragments
      exact h statement (.head _) (List.eq_nil_of_length_eq_zero hfragments.1.symm)
    refine (ih fun other hother => h other (.tail _ hother)).bind fun clauses hclauses => ?_
    exact .pure (List.forall_mem_cons.2 ⟨offersChoice_statementClause hsome hfragments.2, hclauses⟩)

/-- Statements none of which is without an alternative are translated to a clause that offers a choice. -/
theorem offersChoice_translateStatements {statements : List Statement} (h : ∀ statement ∈ statements, statement ≠ []) :
    (t.translateStatements statements).Yields Clause.OffersChoice := by
  intro c hc
  obtain ⟨clauses, hclauses, rfl⟩ := yields_translateStatements (offersChoice_translateEach t h) c hc
  unfold Clause.every
  split
  · exact hclauses _ (.head _)
  · exact ⟨offersInClauses_iff.2 hclauses, trivial⟩

end Translator

end Winnow
