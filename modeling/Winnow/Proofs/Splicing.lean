import Winnow.Proofs.Matching
import Winnow.Proofs.Translation

/-!
# Conjunctions in a query

A query asks for all of its conditions, so a conjunction on one of its fields says no more than its members on that
field. With the members in its place a query has the translation that it had: they are translated one level further out
(`Translator.follows_translateOn`), the field is looked up for each of them, and the fragments come together in another
grouping. An item is matched as before as well, since the members are tested in the same order.
-/

namespace Winnow

/-! ## Merging in another grouping -/

namespace Fragment

variable {α : Type}

theorem mergeLists_none (xs : Option (List α)) : mergeLists xs none = xs := by
  cases xs <;> rfl

theorem mergeLists_assoc (xs ys zs : Option (List α)) :
    mergeLists (mergeLists xs ys) zs = mergeLists xs (mergeLists ys zs) := by
  cases xs <;> cases ys <;> cases zs <;> simp [mergeLists]

theorem empty_merge (f : Fragment α) : merge {} f = f := rfl

theorem merge_empty (f : Fragment α) : f.merge {} = f := by
  rw [merge, mergeLists_none, mergeLists_none]

theorem merge_assoc (f g h : Fragment α) : (f.merge g).merge h = f.merge (g.merge h) := by
  simp only [merge, mergeLists_assoc]

end Fragment

/-! ## Fewer levels further in -/

namespace Logged

variable {α β : Type}

/-- One operation ends as another does wherever that one succeeds. -/
def Follows (y x : Logged α) : Prop :=
  ∀ a, x.result = .ok a → y.result = .ok a

theorem Follows.refl (x : Logged α) : x.Follows x :=
  fun _ h => h

theorem Follows.bind {x y : Logged α} {f g : α → Logged β} (hx : y.Follows x) (hf : ∀ a, (g a).Follows (f a)) :
    (y >>= g).Follows (x >>= f) := by
  intro b hb
  obtain ⟨a, ha, hb⟩ := result_bind_eq_ok hb
  rw [result_bind (hx a ha)]
  exact hf a b hb

/-- Of three steps, the first two or the last two can be taken together. -/
theorem bind_assoc {γ : Type} (x : Logged α) (f : α → Logged β) (g : β → Logged γ) :
    (x >>= f >>= g) = (x >>= fun a => f a >>= g) := by
  obtain ⟨events, fault | a⟩ := x
  · rfl
  · simp only [bind, andThen]
    cases (f a).result with
    | error fault => rfl
    | ok b => simp only [List.append_assoc]

end Logged

namespace Translator

variable {t : Translator}

/-- What can be done one level further in than some depth can be done one level further in than a lesser one. -/
theorem follows_descend {α : Type} {d e : Nat} (h : d ≤ e) {f g : Nat → Logged α}
    (hf : (g (d + 1)).Follows (f (e + 1))) : (t.descend d >>= g).Follows (t.descend e >>= f) := by
  intro a ha
  obtain ⟨inner, hinner, ha⟩ := Logged.result_bind_eq_ok ha
  unfold descend at hinner
  split at hinner
  · cases hinner
  · next hlimit =>
    cases hinner
    rw [Logged.result_bind (result_descend (by omega))]
    exact hf a ha

mutual

/-- What is translated at a depth is translated alike at a lesser one. -/
theorem follows_translateOn {d e : Nat} (h : d ≤ e) (field : String) :
    (c : Condition) → (t.translateOn field d c).Follows (t.translateOn field e c)
  | .compare op operand => .refl _
  | .combine op members => by
    rw [translateOn.eq_def, translateOn.eq_def t field e]
    dsimp only
    split
    · cases op with
      | all => exact follows_translateAll h field members {}
      | any =>
        dsimp only
        split
        · exact .refl _
        · exact (follows_translateAny h field members).bind fun _ => .refl _
    · exact .refl _
  | .nested op operand => by
    rw [translateOn, translateOn]
    split
    · exact follows_descend h ((follows_translateOperand (Nat.succ_le_succ h) field operand).bind fun _ => .refl _)
    · exact .refl _
termination_by structural c => c

theorem follows_translateAll {d e : Nat} (h : d ≤ e) (field : String) : (members : List Value) →
    (before : Fragment Clause) → (t.translateAll field d members before).Follows (t.translateAll field e members before)
  | [], before => .refl _
  | v :: rest, before => by
    rw [translateAll, translateAll]
    refine follows_descend h ((follows_translateMember (Nat.succ_le_succ h) field v).bind fun fragment => ?_)
    exact follows_translateAll h field rest (before.merge fragment)
termination_by structural members => members

theorem follows_translateAny {d e : Nat} (h : d ≤ e) (field : String) : (members : List Value) →
    (t.translateAny field d members).Follows (t.translateAny field e members)
  | [] => .refl _
  | v :: rest => by
    rw [translateAny, translateAny]
    refine follows_descend h ((follows_translateMember (Nat.succ_le_succ h) field v).bind fun fragment => ?_)
    exact (follows_translateAny h field rest).bind fun _ => .refl _
termination_by structural members => members

theorem follows_translateMember {d e : Nat} (h : d ≤ e) (field : String) :
    (v : Value) → (t.translateMember field d v).Follows (t.translateMember field e v)
  | .condition c => follows_translateOn h field c
  | .null | .bool _ | .int _ | .float _ | .decimal _ | .text _ | .date _ | .datetime _ | .time _ | .uuid _
  | .symbol _ _ _ | .operator _ | .direction _ | .daysAgo _ | .list _ | .tuple _ | .object _ | .record _ | .query _ =>
    .refl _
termination_by structural v => v

theorem follows_translateOperand {d e : Nat} (h : d ≤ e) (path : String) :
    (v : Value) → (t.translateOperand path d v).Follows (t.translateOperand path e v)
  | .query pairs => follows_translatePairs h path pairs {}
  | .null | .bool _ | .int _ | .float _ | .decimal _ | .text _ | .date _ | .datetime _ | .time _ | .uuid _
  | .symbol _ _ _ | .operator _ | .direction _ | .daysAgo _ | .list _ | .tuple _ | .object _ | .record _
  | .condition _ => .refl _
termination_by structural v => v

theorem follows_translatePairs {d e : Nat} (h : d ≤ e) (path : String) : (pairs : List (String × Condition)) →
    (before : Fragment Clause) → (t.translatePairs path d pairs before).Follows (t.translatePairs path e pairs before)
  | [], before => .refl _
  | (field, c) :: rest, before => by
    rw [translatePairs, translatePairs]
    refine (Logged.Follows.refl _).bind fun indexed => ?_
    refine (follows_translateOn h indexed c).bind fun fragment => ?_
    exact follows_translatePairs h path rest (before.merge fragment)
termination_by structural pairs => pairs

end

/-! ## Members in place of their conjunction -/

/-- The conditions of a query behind others are translated after those. -/
theorem translatePairs_append (path : String) (depth : Nat) (front back : Query) (before : Fragment Clause) :
    t.translatePairs path depth (front ++ back) before =
      (t.translatePairs path depth front before >>= t.translatePairs path depth back) := by
  induction front generalizing before with
  | nil => rfl
  | cons p rest ih =>
    obtain ⟨field, c⟩ := p
    simp only [List.cons_append, translatePairs, ih, Logged.bind_assoc]

/-- The members of a conjunction, each on its field, give what the conjunction gives, after the same fragments. -/
theorem result_translatePairs_members {path field : String} {depth : Nat} {members : List Condition}
    {g fragment : Fragment Clause}
    (h : (t.translateAll (t.fieldMap.nameOf (Path.inside path field)) depth (members.map .condition) g).result =
      .ok fragment) (before : Fragment Clause) :
    (t.translatePairs path depth (members.map (field, ·)) (before.merge g)).result = .ok (before.merge fragment) := by
  induction members generalizing g with
  | nil =>
    cases h
    rfl
  | cons c rest ih =>
    rw [List.map_cons, translateAll] at h
    obtain ⟨inner, hinner, h⟩ := Logged.result_bind_eq_ok h
    obtain ⟨one, hone, h⟩ := Logged.result_bind_eq_ok h
    have hdepth : depth ≤ inner := by
      unfold descend at hinner
      split at hinner <;> cases hinner
      omega
    rw [List.map_cons, translatePairs, Logged.result_bind (result_apply t.fieldMap _),
      Logged.result_bind (follows_translateOn hdepth _ c one hone), Fragment.merge_assoc]
    exact ih h

/-- A conjunction in a query gives way to its members. -/
theorem follows_members (path field : String) (depth : Nat) (members : List Condition) (before : Fragment Clause) :
    (t.translatePairs path depth (members.map (field, ·)) before).Follows
      (t.translatePairs path depth [(field, .combine .all (members.map .condition))] before) := by
  intro fragment h
  rw [translatePairs, Logged.result_bind (result_apply t.fieldMap _)] at h
  obtain ⟨conjunction, hconjunction, h⟩ := Logged.result_bind_eq_ok h
  cases h
  rw [translateOn] at hconjunction
  split at hconjunction
  · rw [← Fragment.merge_empty before, Fragment.merge_assoc, Fragment.empty_merge]
    exact result_translatePairs_members hconjunction before
  · cases hconjunction

end Translator

/-- In a registry that decides conjunctions by the built-in rule, a conjunction on a field holds as its members do. -/
theorem Registry.allPass_members {r : Registry} (h : r.get? (.combinator .all) = some .builtIn) (field : String)
    (members : List Condition) (item : Value) :
    allPass (fun p => r.evaluate p.2 (item.resolve p.1)) (members.map (field, ·)) =
      allPass (fun p => r.evaluate p.2 (item.resolve p.1)) [(field, .combine .all (members.map .condition))] := by
  rw [allPass_map, allPass_singleton, evaluate, h]
  exact (everyMember_map r members (item.resolve field)).symm

/-- A conjunction in a query can give way to its members, each on its field, whatever stands before and behind it: a
query that has a translation keeps it, and every item is matched as before, fault or answer. -/
theorem Query.splice_all (field : String) (members : List Condition) (front back : Query) :
    (∀ (t : Translator) (path : String) (depth : Nat) (fragment : Fragment Clause),
      (t.translateOperand path depth
        (.query (front ++ [(field, .combine .all (members.map .condition))] ++ back))).result = .ok fragment →
      (t.translateOperand path depth (.query (front ++ members.map (field, ·) ++ back))).result = .ok fragment) ∧
    ∀ (r : Registry) (item : Value), r.get? (.combinator .all) = some .builtIn →
      r.matchesQuery (front ++ members.map (field, ·) ++ back) item =
        r.matchesQuery (front ++ [(field, .combine .all (members.map .condition))] ++ back) item := by
  constructor
  · intro t path depth
    simp only [Translator.translateOperand, Translator.translatePairs_append]
    refine Logged.Follows.bind ?_ fun _ => .refl _
    exact (Logged.Follows.refl _).bind fun before => Translator.follows_members path field depth members before
  · intro r item hall
    rw [Registry.matchesQuery_eq, Registry.matchesQuery_eq, allPass_append_eq, allPass_append_eq front,
      Registry.allPass_members hall, ← allPass_append_eq front, ← allPass_append_eq]

/-- A title, what is asked of visits, and a tag. -/
def visitQuery (visits : Query) : Query :=
  [("title", .neq .null)] ++ visits ++ [("tag", .eq (.text "x"))]

/-- Of visits: one from the second page on, nothing, and none without a page. -/
def pagedVisits : List Condition :=
  [.find [("page", .within .gte (.int 2))], .combine .any [], .nested .nfind (.query [("page", .eq .null)])]

/-- The conjunction takes all of the two levels that are allowed. An item with a visit and one without are told apart
alike by both queries. -/
theorem Query.splice_all_pagedVisits :
    (∃ fragment, (Translator.translateOperand { maxDepth := 2 } "" 0
          (.query (visitQuery [("visits", .combine .all (pagedVisits.map .condition))]))).result = .ok fragment ∧
      (Translator.translateOperand { maxDepth := 2 } "" 0
          (.query (visitQuery (pagedVisits.map ("visits", ·))))).result = .ok fragment) ∧
    (Registry.standard .atStart).matchesQuery (visitQuery (pagedVisits.map ("visits", ·)))
      (.object [("title", .text "a"), ("visits", .list [.object [("page", .int 3)]]), ("tag", .text "x")]) = .ok true ∧
    (Registry.standard .atStart).matchesQuery (visitQuery (pagedVisits.map ("visits", ·)))
      (.object [("title", .text "b"), ("visits", .list []), ("tag", .text "x")]) = .ok false := by
  obtain ⟨htranslate, hmatch⟩ := splice_all "visits" pagedVisits [("title", .neq .null)] [("tag", .eq (.text "x"))]
  refine ⟨⟨_, rfl, htranslate _ _ _ _ rfl⟩, ?_, ?_⟩
  · exact (hmatch _ _ rfl).trans rfl
  · exact (hmatch _ _ rfl).trans rfl

end Winnow
