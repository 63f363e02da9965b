import Mathlib.Data.List.DropRight
import Winnow.Builder
import Winnow.Proofs.Choices

/-!
# What calls on a builder denote

The filter that a builder makes can be read off the calls on it (`Builder.denoted`). The calls since the last reset
count; their conditions are cut into statements and queries at the calls that begin new ones, and of the calls that set
a thing the last that succeeded does. A builder at work takes calls and requests to build in any order: it always gives
the filter that the calls so far denote, and the filters that it has given stay as they are
(`Builder.Work.run_denotes`).
-/

namespace Winnow

/-- A list has a last part. -/
theorem exists_splitOnP_eq {α : Type} (p : α → Bool) (xs : List α) :
    ∃ parts last, xs.splitOnP p = parts ++ [last] :=
  (List.eq_nil_or_concat' (xs.splitOnP p)).resolve_left (List.splitOnP_ne_nil p xs)

/-- An item that is no separator belongs to the last part of a list. -/
theorem splitOnP_concat {α : Type} {p : α → Bool} {xs : List α} {parts : List (List α)} {last : List α}
    (h : xs.splitOnP p = parts ++ [last]) {x : α} (hx : p x = false) :
    (xs ++ [x]).splitOnP p = parts ++ [last ++ [x]] := by
  induction xs generalizing parts last with
  | nil =>
    have hparts : [] ++ [[]] = parts ++ [last] := h
    obtain ⟨rfl, rfl⟩ := List.append_singleton_inj.1 hparts
    rw [List.nil_append, List.splitOnP_cons_eq_if_modifyHead, hx]
    rfl
  | cons y ys ih =>
    obtain ⟨front, back, hback⟩ := exists_splitOnP_eq p ys
    rw [List.splitOnP_cons_eq_if_modifyHead, hback] at h
    rw [List.cons_append, List.splitOnP_cons_eq_if_modifyHead, ih hback]
    by_cases hy : p y = true
    · rw [if_pos hy, ← List.cons_append] at h
      obtain ⟨rfl, rfl⟩ := List.append_singleton_inj.1 h
      rw [if_pos hy, List.cons_append]
    · rw [if_neg hy] at h ⊢
      cases front with
      | nil =>
        have hparts : [] ++ [y :: back] = parts ++ [last] := h
        obtain ⟨rfl, rfl⟩ := List.append_singleton_inj.1 hparts
        rfl
      | cons first front =>
        have hparts : ((y :: first) :: front) ++ [back] = parts ++ [last] := h
        obtain ⟨rfl, rfl⟩ := List.append_singleton_inj.1 hparts
        rfl

namespace Builder

/-! ## What calls say -/

namespace Call

/-- Whether a call starts over. -/
def isReset : Call → Bool
  | reset => true
  | _ => false

/-- Whether a call begins a new statement. -/
def isAnd : Call → Bool
  | and => true
  | _ => false

/-- Whether a call begins a new query in the statement. -/
def isOr : Call → Bool
  | or => true
  | _ => false

/-- The condition that a call puts on a field. -/
def pair? : Call → Option (String × Condition)
  | require field condition => some (field, condition)
  | _ => none

/-- The field, identifier and property that a call sets for the sort. -/
def sort? : Call → Option (Value × Value × Value)
  | sortBy field subId subProp => some (field, subId, subProp)
  | _ => none

/-- The direction that a call sets, unless it fails. -/
def direction? : Call → Option Direction
  | setDirection v => Direction.named? v
  | _ => none

/-- The limit that a call sets, unless it fails. -/
def limit? : Call → Option Int
  | setLimit (.int n) => if 1 ≤ n then some n else none
  | _ => none

end Call

/-- The calls since the last one that started over. -/
def sinceReset (calls : List Call) : List Call :=
  calls.rtakeWhile fun c => !c.isReset

/-- The queries of the calls for one statement. -/
def queriesOf (calls : List Call) : List Query :=
  (calls.splitOnP Call.isOr).map fun query => query.filterMap Call.pair?

/-- The statements of some calls. -/
def statementsOf (calls : List Call) : List (List Query) :=
  (calls.splitOnP Call.isAnd).map queriesOf

/-- What the last of some calls to set a thing sets it to, and what it is without any. -/
def lastSet {α : Type} (read : Call → Option α) (default : α) (calls : List Call) : α :=
  (calls.filterMap read).getLastD default

/-- The filter of calls that do not start over. -/
def filterOf (calls : List Call) : Filter where
  statements := Filter.statementsOf (statementsOf calls)
  sortField := (lastSet Call.sort? (.null, .null, .null) calls).1
  subId := (lastSet Call.sort? (.null, .null, .null) calls).2.1
  subProp := (lastSet Call.sort? (.null, .null, .null) calls).2.2
  direction := lastSet Call.direction? .asc calls
  limit := .int (lastSet Call.limit? 10 calls)

/-- The filter that calls denote. -/
def denoted (calls : List Call) : Filter :=
  filterOf (sinceReset calls)

section Concat

variable {calls : List Call} {c : Call}

theorem lastSet_concat {α : Type} (read : Call → Option α) (default : α) :
    lastSet read default (calls ++ [c]) = (read c).getD (lastSet read default calls) := by
  rw [lastSet, List.filterMap_append]
  cases hread : read c with
  | none => simp [lastSet, hread]
  | some a => simp [hread]

theorem queriesOf_ne_nil (calls : List Call) : queriesOf calls ≠ [] :=
  fun hnil => List.splitOnP_ne_nil _ calls (List.map_eq_nil_iff.1 hnil)

theorem statementsOf_ne_nil (calls : List Call) : statementsOf calls ≠ [] :=
  fun hnil => List.splitOnP_ne_nil _ calls (List.map_eq_nil_iff.1 hnil)

/-- A call that begins a query adds an empty one to its statement. -/
theorem queriesOf_or (calls : List Call) : queriesOf (calls ++ [.or]) = queriesOf calls ++ [[]] := by
  rw [queriesOf, List.splitOnP_append_cons calls [] rfl, List.map_append]
  rfl

/-- A call that begins a statement adds one with an empty query. -/
theorem statementsOf_and (calls : List Call) : statementsOf (calls ++ [.and]) = statementsOf calls ++ [[[]]] := by
  rw [statementsOf, List.splitOnP_append_cons calls [] rfl, List.map_append]
  rfl

/-- A call that begins no query adds its condition, if it has one, to the last query. -/
theorem queriesOf_concat {alternatives : List Query} {current : Query} (h : queriesOf calls = alternatives ++ [current])
    (hc : c.isOr = false) : queriesOf (calls ++ [c]) = alternatives ++ [current ++ c.pair?.toList] := by
  obtain ⟨parts, last, hlast⟩ := exists_splitOnP_eq Call.isOr calls
  rw [queriesOf, hlast, List.map_append] at h
  obtain ⟨rfl, rfl⟩ := List.append_singleton_inj.1 h
  rw [queriesOf, splitOnP_concat hlast hc, List.map_append, List.map_singleton, List.filterMap_append]
  cases hpair : c.pair? <;> simp [hpair]

/-- A call that begins no statement belongs to the last one. -/
theorem statementsOf_concat {closed : List (List Query)} {statement : List Query}
    (h : statementsOf calls = closed ++ [statement]) (hc : c.isAnd = false) :
    ∃ last, queriesOf last = statement ∧ statementsOf (calls ++ [c]) = closed ++ [queriesOf (last ++ [c])] := by
  obtain ⟨parts, last, hlast⟩ := exists_splitOnP_eq Call.isAnd calls
  rw [statementsOf, hlast, List.map_append] at h
  obtain ⟨rfl, rfl⟩ := List.append_singleton_inj.1 h
  refine ⟨last, rfl, ?_⟩
  rw [statementsOf, splitOnP_concat hlast hc, List.map_append]
  rfl

/-- A call that begins neither a statement nor a query adds its condition, if it has one, to the open query. -/
theorem statementsOf_concat_pair {closed : List (List Query)} {alternatives : List Query} {current : Query}
    (h : statementsOf calls = closed ++ [alternatives ++ [current]]) (hand : c.isAnd = false) (hor : c.isOr = false) :
    statementsOf (calls ++ [c]) = closed ++ [alternatives ++ [current ++ c.pair?.toList]] := by
  obtain ⟨last, hlast, hcalls⟩ := statementsOf_concat h hand
  rw [hcalls, queriesOf_concat hlast hor]

end Concat

/-! ## One call -/

section Steps

variable {b : Builder} {calls : List Call} {c : Call}

/-- A call that fails leaves a builder as it is. -/
theorem step_of_error {fault : Fault} (h : b.call c = .error fault) : b.step c = b := by
  rw [step, h]

theorem step_setDirection (b : Builder) (v : Value) :
    b.step (.setDirection v) = { b with direction := (Call.setDirection v).direction?.getD b.direction } := by
  rw [step, call, Builder.setDirection, Direction.read, Call.direction?]
  cases Direction.named? v with
  | some direction => rfl
  | none => cases v.display <;> rfl

/-- A limit that is refused is a fault, whether or not it can be shown. -/
theorem exists_bad (v : Value) : ∃ fault, setLimit.bad v = .error fault := by
  unfold setLimit.bad
  cases v.display <;> exact ⟨_, rfl⟩

theorem step_setLimit (b : Builder) (v : Value) :
    b.step (.setLimit v) = { b with limit := (Call.setLimit v).limit?.getD b.limit } := by
  obtain ⟨fault, hbad⟩ := exists_bad v
  cases v with
  | int n =>
    by_cases hn : 1 ≤ n
    · rw [step, call, Builder.setLimit, Call.limit?, if_pos hn, if_pos hn]
      rfl
    · have hcall : b.call (.setLimit (.int n)) = .error fault := by
        rw [call, Builder.setLimit, if_neg hn, hbad]
      rw [step_of_error hcall, Call.limit?, if_neg hn]
      rfl
  | _ => exact step_of_error hbad

/-- A builder that holds what some calls say. -/
structure Holds (b : Builder) (calls : List Call) : Prop where
  statements : b.statements = statementsOf calls
  sort : (b.sortField, b.subId, b.subProp) = lastSet Call.sort? (.null, .null, .null) calls
  direction : b.direction = lastSet Call.direction? .asc calls
  limit : b.limit = lastSet Call.limit? 10 calls

/-- A new builder holds what no call says. -/
theorem holds_nil : Holds {} [] :=
  ⟨rfl, rfl, rfl, rfl⟩

/-- A builder that holds what some calls say builds their filter. -/
theorem Holds.build_eq (h : b.Holds calls) : b.build = filterOf calls := by
  rw [build, filterOf, h.statements, h.direction, h.limit, ← h.sort]

/-- After one more call a builder holds the statements of that as well. -/
theorem statements_step (h : b.statements = statementsOf calls) (hc : c.isReset = false) :
    (b.step c).statements = statementsOf (calls ++ [c]) := by
  have hopen := statementsOf_concat_pair (c := c) h.symm
  have hkept (hand : c.isAnd = false) (hor : c.isOr = false) (hpair : c.pair? = none) :
      b.statements = statementsOf (calls ++ [c]) := by
    rw [hopen hand hor, hpair, Option.toList_none, List.append_nil]
    rfl
  cases c with
  | require field condition => exact (hopen rfl rfl).symm
  | or =>
    obtain ⟨last, hlast, hcalls⟩ := statementsOf_concat (c := .or) h.symm rfl
    rw [hcalls, queriesOf_or, hlast]
    rfl
  | and =>
    rw [statementsOf_and, ← h]
    rfl
  | sortBy field subId subProp => exact hkept rfl rfl rfl
  | setDirection v =>
    rw [step_setDirection]
    exact hkept rfl rfl rfl
  | setLimit v =>
    rw [step_setLimit]
    exact hkept rfl rfl rfl
  | reset => cases hc

theorem sort_step (hc : c.isReset = false) : ((b.step c).sortField, (b.step c).subId, (b.step c).subProp) =
    c.sort?.getD (b.sortField, b.subId, b.subProp) := by
  cases c with
  | setDirection v =>
    rw [step_setDirection]
    rfl
  | setLimit v =>
    rw [step_setLimit]
    rfl
  | reset => cases hc
  | _ => rfl

theorem direction_step (hc : c.isReset = false) : (b.step c).direction = c.direction?.getD b.direction := by
  cases c with
  | setDirection v => rw [step_setDirection]
  | setLimit v =>
    rw [step_setLimit]
    rfl
  | reset => cases hc
  | _ => rfl

theorem limit_step (hc : c.isReset = false) : (b.step c).limit = c.limit?.getD b.limit := by
  cases c with
  | setDirection v =>
    rw [step_setDirection]
    rfl
  | setLimit v => rw [step_setLimit]
  | reset => cases hc
  | _ => rfl

/-- After one more call a builder holds what that says as well. -/
theorem Holds.step (h : b.Holds calls) (hc : c.isReset = false) : (b.step c).Holds (calls ++ [c]) where
  statements := statements_step h.statements hc
  sort := by rw [lastSet_concat, ← h.sort, sort_step hc]
  direction := by rw [lastSet_concat, ← h.direction, direction_step hc]
  limit := by rw [lastSet_concat, ← h.limit, limit_step hc]

end Steps

/-- After any calls a builder holds what those since the last reset say. -/
theorem holds_foldl (calls : List Call) : (calls.foldl step {}).Holds (sinceReset calls) := by
  induction calls using List.reverseRecOn with
  | nil => exact holds_nil
  | append_singleton calls c ih =>
    rw [List.foldl_append, sinceReset, List.rtakeWhile_concat]
    cases hreset : c.isReset with
    | false => exact ih.step hreset
    | true =>
      obtain rfl : c = .reset := by
        cases c with
        | reset => rfl
        | _ => cases hreset
      exact holds_nil

/-- There is a statement, and every statement has a query. -/
theorem statements_denoted (calls : List Call) :
    (denoted calls).statements ≠ [] ∧ ∀ statement ∈ (denoted calls).statements, statement ≠ [] := by
  constructor
  · exact fun hnil => statementsOf_ne_nil _ (List.map_eq_nil_iff.1 hnil)
  · refine List.forall_mem_map.2 (List.forall_mem_map.2 fun part _ hnil => ?_)
    exact queriesOf_ne_nil part (List.map_eq_nil_iff.1 hnil)

/-! ## A builder at work -/

/-- What is asked of a builder: to take a call, or to build. -/
inductive Act where
  | call (c : Call)
  | build

/-- The call that is asked for. -/
def Act.call? : Act → Option Call
  | call c => some c
  | build => none

/-- The calls among some acts. -/
def callsOf (acts : List Act) : List Call :=
  acts.filterMap Act.call?

/-- A builder and the filters that it has built, the first one in front. -/
structure Work where
  builder : Builder := {}
  built : List Filter := []

namespace Work

/-- The work after an act; a call that fails is passed over. -/
def after (w : Work) : Act → Work
  | .call c => { w with builder := w.builder.step c }
  | .build => { w with built := w.built ++ [w.builder.build] }

/-- The work on a new builder after some acts. -/
def run (acts : List Act) : Work :=
  acts.foldl after {}

theorem run_append (acts later : List Act) : run (acts ++ later) = later.foldl after (run acts) :=
  List.foldl_append

/-- The builder has taken the calls among the acts. -/
theorem builder_run (acts : List Act) : (run acts).builder = (callsOf acts).foldl step {} := by
  induction acts using List.reverseRecOn with
  | nil => rfl
  | append_singleton acts act ih =>
    rw [run_append, callsOf, List.filterMap_append, List.foldl_append, ← callsOf, ← ih]
    cases act <;> rfl

/-- Later acts leave the filters alone that are built. -/
theorem built_isPrefix (w : Work) (later : List Act) : w.built <+: (later.foldl after w).built := by
  induction later generalizing w with
  | nil => exact List.prefix_refl _
  | cons act later ih =>
    refine List.IsPrefix.trans ?_ (ih (w.after act))
    cases act with
    | call c => exact List.prefix_refl _
    | build => exact List.prefix_append _ _

/-- What is built is what the calls so far denote. -/
theorem build_run (acts : List Act) : (run acts).builder.build = denoted (callsOf acts) := by
  rw [builder_run]
  exact (holds_foldl _).build_eq

/-- Whatever is asked of a builder, in whatever order: it builds the filter that the calls so far denote, in which there
is a statement and every statement has a query, so that no translation of it asks for one of no clauses; a call that
fails changes nothing; and each filter that it has built is still the one that the calls up to then denote. -/
theorem run_denotes (acts : List Act) :
    (run acts).builder.build = denoted (callsOf acts) ∧
      ((run acts).builder.build.statements ≠ [] ∧
        ∀ statement ∈ (run acts).builder.build.statements, statement ≠ []) ∧
      (∀ (t : Translator) (clause : Clause),
        (t.translateStatements (run acts).builder.build.statements).result = .ok clause → clause.OffersChoice) ∧
      (∀ c fault, (run acts).builder.call c = .error fault → run (acts ++ [.call c]) = run acts) ∧
      ∀ before later, acts = before ++ .build :: later →
        (run before).built ++ [denoted (callsOf before)] <+: (run acts).built := by
  obtain ⟨hsome, hqueries⟩ := statements_denoted (callsOf acts)
  rw [build_run]
  refine ⟨rfl, ⟨hsome, hqueries⟩, fun t clause => t.offersChoice_translateStatements hqueries clause, ?_, ?_⟩
  · intro c fault hfault
    rw [run_append]
    show { run acts with builder := (run acts).builder.step c } = run acts
    rw [step_of_error hfault]
  · rintro before later rfl
    rw [run_append, List.foldl_cons, ← build_run]
    exact built_isPrefix ((run before).after .build) later

/-- Two filters for a page, the second with an alternative and a limit, and a new start on one for any page. -/
def pageActs : List Act :=
  [.call (.require "page" (.eq (.int 1))), .call (.setLimit (.int 0)), .build, .call .or, .call (.setLimit (.int 3)),
    .build, .call .reset, .call .and, .call (.require "page" (.neq .null)), .call (.setDirection (.text "desc"))]

/-- The first limit fails and is passed over, the second is forgotten with the reset. -/
theorem run_denotes_pageActs :
    (run pageActs).builder.build =
        { statements := Filter.statementsOf [[[]], [[("page", .neq .null)]]], direction := .desc } ∧
      [{ statements := Filter.statementsOf [[[("page", .eq (.int 1))]]] },
        { statements := Filter.statementsOf [[[("page", .eq (.int 1))], []]], limit := .int 3 }] <+:
        (run pageActs).built ∧
      run (pageActs ++ [.call (.setLimit (.int 0))]) = run pageActs := by
  obtain ⟨hbuild, -, -, hfails, hbuilt⟩ := run_denotes pageActs
  exact ⟨hbuild, hbuilt (pageActs.take 5) (pageActs.drop 6) rfl, hfails _ _ rfl⟩

end Work

end Builder

end Winnow
