import Winnow.Decode
import Winnow.Proofs.JsonTexts
import Winnow.Proofs.Outcome

/-!
# The two modes of a walk

Statements about walks that stop at the first problem and walks that collect them all. The two modes of a walk agree
(`Walk.Agrees`) when stopping stops at the first problem that collecting notes, or when both fail because something
that they would tell cannot be written. Reading a filter from data is such a walk from its parts up to the whole, so the
problems of data are none exactly when it is read as a filter, and the first of them is the one that reading stops at
(`Filter.decode_or_first_problem`).
-/

namespace Winnow

namespace Walk

variable {α β : Type} {told : Prop}

/-- How a walk ends that stops at the first problem, from the value and the problems of one that goes on. -/
def stopped (a : α) : List Problem → Except Fault (α × List Problem)
  | [] => .ok (a, [])
  | p :: _ => .error (.ofProblem p)

/-- The two modes of a walk agree: the collecting one ends with a value and what it noted, and the other one stops at
the first of that, or ends with the same value. Otherwise a problem that the collecting one comes to cannot be told, and
the other one fails as well, there or before. -/
inductive Agrees (told : Prop) (x : Walk α) : Prop where
  | ends (a : α) (noted : List Problem) : x .collect = .ok (a, noted) → x .failFast = stopped a noted → Agrees told x
  | fails (fault : Fault) : ¬told → x .collect = .error .integerUnwritable → x .failFast = .error fault → Agrees told x

/-- What a walk that stops at the first problem ends with, if it is not stopped, has a property. -/
def Yields (P : α → Prop) (x : Walk α) : Prop :=
  ∀ a noted, x .failFast = .ok (a, noted) → P a

/-! ## Steps on which the modes agree -/

theorem Agrees.pure (a : α) : (pure a : Walk α).Agrees told :=
  .ends a [] rfl rfl

theorem Agrees.report (place : Place) (cause : Cause) (a : α) : (Walk.report place cause a).Agrees told :=
  .ends a [⟨place, cause⟩] rfl rfl

theorem Agrees.reportShown (place : Place) (cause : String → Cause) {shown : Option String}
    (h : told → shown.isSome = true) (a : α) : (Walk.reportShown place cause shown a).Agrees told := by
  cases shown with
  | some text => exact .report _ _ _
  | none => exact .fails .integerUnwritable (fun htold => by cases h htold) rfl rfl

/-- More may be said of what can be told where less has to be. -/
theorem Agrees.mono {told' : Prop} {x : Walk α} (hx : x.Agrees told) (h : told' → told) : x.Agrees told' := by
  cases hx with
  | ends a noted hcollect hstop => exact .ends a noted hcollect hstop
  | fails fault hnot hcollect hstop => exact .fails fault (fun htold => hnot (h htold)) hcollect hstop

/-- Of two walks in a row, the first problem is that of the first walk, and of the second one where there is none. -/
theorem Agrees.bind {x : Walk α} {f : α → Walk β} (hx : x.Agrees told)
    (hf : ∀ a noted, x .collect = .ok (a, noted) → (f a).Agrees told) : (x >>= f).Agrees told := by
  cases hx with
  | fails fault hnot hcollect hstop =>
    refine .fails fault hnot ?_ ?_
    · simp only [Bind.bind, andThen, hcollect]
    · simp only [Bind.bind, andThen, hstop]
  | ends a noted hcollect hstop =>
    cases hf a noted hcollect with
    | ends b more hcollect' hstop' =>
      refine .ends b (noted ++ more) ?_ ?_
      · simp only [Bind.bind, andThen, hcollect, hcollect']
      · cases noted with
        | nil =>
          simp only [Bind.bind, andThen, hstop, stopped, hstop', List.nil_append]
          cases more <;> rfl
        | cons p rest => simp only [Bind.bind, andThen, hstop, stopped, List.cons_append]
    | fails fault hnot hcollect' hstop' =>
      have hboth : (x >>= f) .collect = .error .integerUnwritable := by
        simp only [Bind.bind, andThen, hcollect, hcollect']
      cases noted with
      | nil =>
        refine .fails fault hnot hboth ?_
        simp only [Bind.bind, andThen, hstop, stopped, hstop']
      | cons p rest =>
        refine .fails (.ofProblem p) hnot hboth ?_
        simp only [Bind.bind, andThen, hstop, stopped]

theorem Agrees.eachFrom {visit : Nat → α → Walk β} {items : List α} (h : ∀ i, ∀ a ∈ items, (visit i a).Agrees told)
    (start : Nat) : (Walk.eachFrom visit start items).Agrees told := by
  induction items generalizing start with
  | nil => exact .pure []
  | cons a rest ih =>
    refine (h start a (.head _)).bind fun b _ _ => ?_
    exact (ih (fun i c hc => h i c (.tail _ hc)) (start + 1)).bind fun others _ _ => .pure (b :: others)

theorem Agrees.each {visit : Nat → α → Walk β} {items : List α} (h : ∀ i, ∀ a ∈ items, (visit i a).Agrees told) :
    (Walk.each visit items).Agrees told :=
  .eachFrom h 0

/-! ## Steps that yield values with a property -/

section Yields

variable {P : α → Prop} {Q : β → Prop}

theorem Yields.pure {a : α} (h : P a) : Yields P (pure a : Walk α) := by
  intro b noted hb
  cases hb
  exact h

/-- A walk that reports a problem is stopped. -/
theorem Yields.report (place : Place) (cause : Cause) (a : α) : Yields P (Walk.report place cause a) := by
  intro b noted hb
  cases hb

theorem Yields.reportShown (place : Place) (cause : String → Cause) (shown : Option String) (a : α) :
    Yields P (Walk.reportShown place cause shown a) := by
  intro b noted hb
  cases shown <;> cases hb

theorem Yields.bind {x : Walk α} {f : α → Walk β} (hx : Yields P x) (hf : ∀ a, P a → Yields Q (f a)) :
    Yields Q (x >>= f) := by
  intro b noted hb
  simp only [Bind.bind, andThen] at hb
  split at hb
  · cases hb
  · next a first hstop =>
    split at hb
    · cases hb
    · next b' more hstop' =>
      cases hb
      exact hf a (hx a first hstop) b more hstop'

/-- A walk yields something, whatever it is. -/
theorem Yields.any (x : Walk α) : Yields (fun _ => True) x :=
  fun _ _ _ => trivial

theorem Yields.each {visit : Nat → α → Walk β} {items : List α} (h : ∀ i, ∀ a ∈ items, Yields Q (visit i a)) :
    Yields (fun out => ∀ b ∈ out, Q b) (Walk.each visit items) := by
  suffices ∀ start, Yields (fun out => ∀ b ∈ out, Q b) (eachFrom visit start items) from this 0
  induction items with
  | nil => exact fun _ => .pure nofun
  | cons a rest ih =>
    intro start
    refine (h start a (.head _)).bind ?_
    intro b hb
    refine (ih (fun i c hc => h i c (.tail _ hc)) (start + 1)).bind ?_
    intro others hothers
    exact .pure (List.forall_mem_cons.2 ⟨hb, hothers⟩)

end Yields

end Walk

/-! ## What can be told -/

namespace Value

/-- What is found at a key is one of the entries. -/
theorem mem_of_lookup {key : String} {entries : List (String × Value)} {v : Value} (h : entries.lookup key = some v) :
    (key, v) ∈ entries := by
  obtain ⟨before, after, rfl, -⟩ := List.lookup_eq_some_iff.1 h
  simp

/-- A property of values that passes on to the items of lists and to what is looked up in objects. -/
structure Inherited (P : Value → Prop) : Prop where
  item : ∀ {items : List Value}, P (.list items) → ∀ v ∈ items, P v
  lookup : ∀ {entries : List (String × Value)}, P (.object entries) → ∀ key, P (Value.lookup key entries)

theorem inherited_isShown : Inherited fun v => v.isShown = true where
  item := by
    intro items h
    rw [isShown_list, List.all_eq_true] at h
    exact h
  lookup := by
    intro entries h key
    rw [isShown_object, List.all_eq_true] at h
    unfold Value.lookup
    cases hfound : entries.lookup key with
    | none => rfl
    | some v => exact h _ (mem_of_lookup hfound)

end Value

/-- Whether every problem that data may have can be told: the limit on depth has a text, and every number in the data
has one. -/
def DecodeOptions.Tells (o : DecodeOptions) (data : Value) : Prop :=
  fitsLimit o.maxDepth = true ∧ data.isShown = true

/-- Whatever problems the data of a JSON text has, they can be told. -/
theorem DecodeOptions.tells_of_read {o : DecodeOptions} {text : String} {data : Value}
    (hdepth : fitsLimit o.maxDepth = true) (h : Json.read text = .ok data) : o.Tells data :=
  ⟨hdepth, Json.isShown_of_read h⟩

theorem DecodeOptions.inherited_tells (o : DecodeOptions) : Value.Inherited o.Tells where
  item := fun h v hv => ⟨h.1, Value.inherited_isShown.item h.2 v hv⟩
  lookup := fun h key => ⟨h.1, Value.inherited_isShown.lookup h.2 key⟩

/-! ## Reading a filter -/

namespace Decode

variable {o : DecodeOptions}

theorem scalar_agrees {told : Prop} (op : Comparison) (place : Place) (value : Value) :
    (scalar o op place value).Agrees told := by
  unfold scalar
  split
  · split
    · exact .pure _
    · exact .report _ _ _
  · exact .report _ _ _
  · exact .report _ _ _
  · exact .pure _
  · exact .pure _

theorem leaf_agrees {read : ConditionReader}
    (hread : ∀ data place path, (read data place path).Agrees (o.Tells data)) (outer : Option String) (place : Place)
    (data : Value) : (leaf o read outer place data).Agrees (o.Tells data) := by
  unfold leaf
  split
  · split
    · exact .reportShown _ _ And.right _
    · split
      · exact .reportShown _ _ And.right _
      · lift_lets
        intro full
        split
        · exact .report _ _ _
        · exact (hread _ _ _).bind fun _ _ _ => .pure _
  · exact .report _ _ _

theorem query_agrees {read : ConditionReader}
    (hread : ∀ data place path, (read data place path).Agrees (o.Tells data)) (outer : Option String) (place : Place)
    (data : Value) : (query o read outer place data).Agrees (o.Tells data) := by
  unfold query
  split
  · refine (Walk.Agrees.each fun i v hv => ?_).bind fun _ _ _ => .pure _
    exact (leaf_agrees hread _ _ _).mono fun h => o.inherited_tells.item h v hv
  · exact .report _ _ _

/-- The two modes agree on a condition, however deep there is room for it. -/
theorem condition_agrees (room : Nat) (data : Value) (place : Place) (path : String) :
    (condition o room data place path).Agrees (o.Tells data) := by
  induction room generalizing data place path with
  | zero => exact .reportShown _ _ (fun h => (isSome_writeInt? _).trans h.1) _
  | succ room ih =>
    unfold condition
    split
    · next entries =>
      have hvalue : o.Tells (.object entries) → o.Tells (Value.lookup "value" entries) :=
        fun h => o.inherited_tells.lookup h "value"
      split
      · exact .report _ _ _
      · split
        · exact .report _ _ _
        · dsimp only
          split
          · exact .report _ _ _
          · exact scalar_agrees _ _ _
          · split
            · next items hitems =>
              refine (Walk.Agrees.each fun i v hv => ?_).bind fun _ _ _ => .pure _
              exact (ih _ _ _).mono fun h => o.inherited_tells.item (hitems ▸ hvalue h) v hv
            · exact .report _ _ _
          · exact ((query_agrees ih _ _ _).mono hvalue).bind fun _ _ _ => .pure _
    · exact .report _ _ _

theorem statement_agrees (place : Place) (data : Value) : (statement o place data).Agrees (o.Tells data) := by
  unfold statement
  split
  · refine (Walk.Agrees.each fun i v hv => ?_).bind fun _ _ _ => .pure _
    exact (query_agrees (condition_agrees _) _ _ _).mono fun h => o.inherited_tells.item h v hv
  · exact .report _ _ _

theorem statements_agrees (entries : List (String × Value)) :
    (statements o entries).Agrees (o.Tells (.object entries)) := by
  unfold statements
  dsimp only
  split
  · exact .pure _
  · next items hitems =>
    have hlookup : Value.lookup "statements" entries = .list items := by rw [Value.lookup, hitems, Option.getD_some]
    refine (Walk.Agrees.each fun i v hv => ?_).bind fun _ _ _ => .pure _
    exact (statement_agrees _ _).mono fun h =>
      o.inherited_tells.item (hlookup ▸ o.inherited_tells.lookup h "statements") v hv
  · exact .report _ _ _

theorem sortEntries_agrees {told : Prop} (entries : List (String × Value)) : (sortEntries entries).Agrees told := by
  unfold sortEntries
  split
  · exact .pure _
  · split
    · exact .report _ _ _
    · exact .pure _

/-- The entries that the sort is taken to have can be told when the data can. -/
theorem tells_sortEntries {entries sort : List (String × Value)} {noted : List Problem}
    (h : sortEntries entries .collect = .ok (sort, noted)) (htold : o.Tells (.object entries)) :
    o.Tells (.object sort) := by
  have hempty : o.Tells (.object []) := ⟨htold.1, rfl⟩
  have hsort : o.Tells (Value.lookup "sort" entries) := o.inherited_tells.lookup htold "sort"
  rw [sortEntries.eq_def] at h
  generalize Value.lookup "sort" entries = v at h hsort
  cases v with
  | object found =>
    cases h
    exact hsort
  | _ =>
    dsimp only at h
    split at h
    · cases h
      exact hempty
    · cases h
      exact hempty

theorem sortName_agrees {told : Prop} (sort : List (String × Value)) (key : String) :
    (sortName sort key).Agrees told := by
  unfold sortName
  split
  · exact .pure _
  · split
    · exact .pure _
    · exact .report _ _ _

theorem sortDirection_agrees (sort : List (String × Value)) : (sortDirection sort).Agrees (o.Tells (.object sort)) := by
  unfold sortDirection
  dsimp only
  split
  · split
    · exact .pure _
    · exact .reportShown _ _ (fun h => (o.inherited_tells.lookup h "direction").2) _
  · exact .pure _

theorem limit_agrees (entries : List (String × Value)) : (limit entries).Agrees (o.Tells (.object entries)) := by
  unfold limit
  split
  · exact .pure _
  · next v hv =>
    have hlookup : Value.lookup "limit" entries = v := by rw [Value.lookup, hv, Option.getD_some]
    split
    · exact .pure _
    · exact .reportShown _ _ (fun h => (hlookup ▸ o.inherited_tells.lookup h "limit").2) _

/-- The two modes agree on a whole filter. -/
theorem filter_agrees (data : Value) : (filter o data).Agrees (o.Tells data) := by
  unfold filter
  split
  · refine (statements_agrees _).bind fun _ _ _ => (sortEntries_agrees _).bind fun sort _ hsort => ?_
    refine (sortName_agrees sort _).bind fun _ _ _ => (sortName_agrees sort _).bind fun _ _ _ => ?_
    refine (sortName_agrees sort _).bind fun _ _ _ => ?_
    refine ((sortDirection_agrees sort).mono (tells_sortEntries hsort)).bind fun _ _ _ => ?_
    exact (limit_agrees _).bind fun _ _ _ => .pure _
  · exact .report _ _ _

/-- A walk over data that is not stopped ends with a filter. -/
theorem filter_yields_some (data : Value) : (filter o data).Yields fun found => found.isSome = true := by
  unfold filter
  split
  · refine (Walk.Yields.any _).bind fun _ _ => (Walk.Yields.any _).bind fun _ _ => ?_
    refine (Walk.Yields.any _).bind fun _ _ => (Walk.Yields.any _).bind fun _ _ => ?_
    refine (Walk.Yields.any _).bind fun _ _ => (Walk.Yields.any _).bind fun _ _ => ?_
    exact (Walk.Yields.any _).bind fun _ _ => .pure rfl
  · exact .report _ _ _

/-- The record of unknown keys always succeeds. -/
theorem result_noteUnknownKeys (data : Value) : (noteUnknownKeys data).result = .ok () := by
  unfold noteUnknownKeys
  split <;> rfl

end Decode

/-! ## Stopping and collecting -/

/-- The line that a fault of reading a filter would be among the lines of all problems: the place and the message of a
problem, or the place and the name of an unknown operator. -/
def Fault.line? : Fault → Option String
  | problem p => some (p.place.text ++ ": " ++ p.cause.message)
  | unknownOperator ⟨name, _, .text place⟩ => some (place ++ ": unknown operator '" ++ name ++ "'")
  | _ => none

/-- The wording of an unknown operator after its place, in one piece or in two. -/
theorem Fault.unknownOperator_line (place name : String) :
    place ++ ": unknown operator '" ++ name ++ "'" = place ++ ": " ++ ("unknown operator '" ++ name ++ "'") := by
  refine String.toList_inj.1 ?_
  simp

/-- The fault that a problem is reads as the line of the problem. -/
theorem Fault.line?_ofProblem (p : Problem) : (Fault.ofProblem p).line? = some p.line := by
  obtain ⟨place, cause⟩ := p
  cases cause with
  | unknownOperator name => exact congrArg some (unknownOperator_line place.text name)
  | _ => rfl

namespace Filter

/-- The problems of data are none exactly when it is read as a filter; where reading it fails, the fault is the first of
the problems and reads as its line. They are told of all data in which every number has a text, such as the data of any
JSON text, whatever else is wrong with it. Telling them fails only where a number has too many digits to be written, and
then the data is not read as a filter either. -/
theorem decode_or_first_problem (o : DecodeOptions) (data : Value) :
    (∀ noted, (problems o data).result = .ok noted → (noted = [] ↔ ∃ f, (decode o data).result = .ok f) ∧
      ∀ fault, (decode o data).result = .error fault →
        ∃ p, noted.head? = some p ∧ fault = .ofProblem p ∧ fault.line? = some p.line) ∧
      (o.Tells data → ∃ noted, (problems o data).result = .ok noted) ∧
      (∀ text, Json.read text = .ok data → fitsLimit o.maxDepth = true →
        ∃ noted, (problems o data).result = .ok noted) ∧
      ∀ fault, (problems o data).result = .error fault →
        fault = .integerUnwritable ∧ ∃ fault', (decode o data).result = .error fault' := by
  have hproblems : (problems o data).result = _ := Logged.result_bind (Decode.result_noteUnknownKeys data) _
  have hdecode : (decode o data).result = _ := Logged.result_bind (Decode.result_noteUnknownKeys data) _
  rw [hproblems, hdecode]
  cases Decode.filter_agrees (o := o) data with
  | ends found noted hcollect hstop =>
    rw [hcollect, hstop]
    refine ⟨?_, fun _ => ⟨noted, rfl⟩, fun _ _ _ => ⟨noted, rfl⟩, fun fault hfault => by cases hfault⟩
    intro told htold
    cases htold
    cases noted with
    | nil =>
      rw [Walk.stopped] at hstop
      obtain ⟨f, rfl⟩ := Option.isSome_iff_exists.1 (Decode.filter_yields_some data found [] hstop)
      exact ⟨⟨fun _ => ⟨f, rfl⟩, fun _ => rfl⟩, fun fault hfault => by cases hfault⟩
    | cons p rest =>
      refine ⟨⟨nofun, ?_⟩, ?_⟩
      · rintro ⟨f, hf⟩
        cases hf
      · intro fault hfault
        cases hfault
        exact ⟨p, rfl, rfl, Fault.line?_ofProblem p⟩
  | fails fault hnot hcollect hstop =>
    rw [hcollect, hstop]
    refine ⟨fun noted hnoted => (by cases hnoted), fun htold => absurd htold hnot, ?_, ?_⟩
    · intro text hread hdepth
      exact absurd (DecodeOptions.tells_of_read hdepth hread) hnot
    intro told htold
    cases htold
    exact ⟨rfl, fault, rfl⟩

end Filter

end Winnow
