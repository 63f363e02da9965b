import Winnow.Filter
import Winnow.RelativeDate
import Winnow.Search.Clause
import Winnow.Search.FieldMap
import Winnow.Search.Plain

/-!
# Translating conditions to clauses

A condition becomes a fragment of clauses on its indexed field, a query the fragments of its conditions together, and
the statements of a filter one clause. Rules of translation handle some operators each; an operator that no rule
handles is a fault, and so is nesting beyond the allowed depth.
-/

namespace Winnow

/-- A rule of translation: the operators that it handles. -/
inductive Rule where
  | equality
  | range
  | text
  | combination
  | membership
  deriving DecidableEq

namespace Rule

/-- Every rule, in the order in which they are tried. -/
def every : List Rule :=
  [equality, range, text, combination, membership]

/-- Whether a rule handles an operator. -/
def handles : Rule → Operator → Bool
  | equality, .comparison .eq => true
  | equality, .comparison .neq => true
  | range, .comparison (.bound _) => true
  | text, .comparison .startsWith => true
  | combination, .combinator _ => true
  | membership, .membership _ => true
  | _, _ => false

end Rule

/-- How the sort inside a collection is written: with keys of their own, or as one object. -/
inductive NestedSortStyle where
  | legacy
  | nested
  deriving DecidableEq

/-- What a translation depends on: the names of indexed fields, the identifier, where documents without a sort value go,
how nested sorts are written, how deeply conditions may be nested, and the rules. -/
structure Translator where
  fieldMap : FieldMap := .identity
  idField : String := "id"
  missing : String := "_last"
  nestedSortStyle : NestedSortStyle := .legacy
  maxDepth : Int := 32
  rules : List Rule := Rule.every

/-- The value of a range bound in a search body, if it can be written: a relative date is left to the engine to
resolve. -/
def rangeOperand : Value → Option Value
  | .daysAgo days => (RelativeDate.dateMath days).map .text
  | v => some v.searchable

/-- The fragment of a comparison on an indexed field, if its operand can be written. -/
def Comparison.translate (op : Comparison) (field : String) (operand : Value) : Option (Fragment Clause) :=
  match op, operand with
  | .eq, .null => some (.exclude (.present field))
  | .eq, v => some (.must (.term field v.searchable))
  | .neq, .null => some (.must (.present field))
  | .neq, v => some (.exclude (.term field v.searchable))
  | .bound b, v => (rangeOperand v).map fun limit => .must (.range field b limit)
  | .startsWith, v => some (.must (.startsWith field v.searchable))

/-- The clauses that stand for a fragment among alternatives: its own when it only demands some to match, and else the
fragment as one clause. An empty fragment matches everything and must stay an alternative of its own. -/
def Fragment.alternatives (f : Fragment Clause) : List Clause :=
  match f with
  | ⟨some (clause :: clauses), none⟩ => clause :: clauses
  | f => [.bool f]

/-- The name of a field inside a collection, or of a field on its own when there is none. -/
def Path.inside (outer inner : String) : String :=
  if outer.isEmpty then inner else Path.join outer inner

namespace Translator

/-- Whether some rule handles an operator. -/
def handles (t : Translator) (op : Operator) : Bool :=
  t.rules.any fun rule => rule.handles op

/-- The depth one level further in, a fault beyond the allowed one. -/
def descend (t : Translator) (depth : Nat) : Logged Nat :=
  if t.maxDepth < (depth + 1 : Nat) then .fail (Fault.nestedTooDeep (depth + 1 : Nat) t.maxDepth).worded
  else return depth + 1

/-- The refusal of a condition whose operator no rule handles. -/
def refuse {α : Type} (c : Condition) : Logged α :=
  .fail (Fault.unsupported c).worded

mutual

/-- The fragment of a condition on an indexed field, at a depth. -/
def translateOn (t : Translator) (field : String) (depth : Nat) (c : Condition) : Logged (Fragment Clause) :=
  match c with
  | .compare op operand =>
    if t.handles (.comparison op) then .ofResult (Fault.ofWriting (op.translate field operand))
    else refuse (.compare op operand)
  | .combine op members =>
    if t.handles (.combinator op) then
      match op with
      | .all => translateAll t field depth members {}
      | .any =>
        if members.isEmpty then return { filter := some [] }
        else do return .must (.best (← translateAny t field depth members))
    else refuse (.combine op members)
  | .nested op operand =>
    if t.handles (.membership op) then do
      let query ← translateOperand t field (← t.descend depth) operand
      match op with
      | .find => return .must (.nested field query)
      | .nfind => return .exclude (.nested field query)
    else refuse (.nested op operand)
termination_by structural c

/-- The fragments of the members of a combinator together, after those before them. -/
def translateAll (t : Translator) (field : String) (depth : Nat) (members : List Value)
    (before : Fragment Clause) : Logged (Fragment Clause) :=
  match members with
  | [] => return before
  | v :: rest => do
    let inner ← t.descend depth
    let fragment ← translateMember t field inner v
    translateAll t field depth rest (before.merge fragment)
termination_by structural members

/-- The clauses that stand for the members of a combinator as alternatives. -/
def translateAny (t : Translator) (field : String) (depth : Nat) (members : List Value) : Logged (List Clause) :=
  match members with
  | [] => return []
  | v :: rest => do
    let inner ← t.descend depth
    let fragment ← translateMember t field inner v
    let clauses ← translateAny t field depth rest
    return fragment.alternatives ++ clauses
termination_by structural members

/-- The fragment of a member of a combinator, meant to be a condition. -/
def translateMember (t : Translator) (field : String) (depth : Nat) (member : Value) : Logged (Fragment Clause) :=
  match member with
  | .condition c => translateOn t field depth c
  | _ => .fail .missingPart
termination_by structural member

/-- The fragment of an operand, meant to be a query, on the elements of a collection. -/
def translateOperand (t : Translator) (path : String) (depth : Nat) (operand : Value) : Logged (Fragment Clause) :=
  match operand with
  | .query pairs => translatePairs t path depth pairs {}
  | _ => .fail .missingPart
termination_by structural operand

/-- The fragments of the conditions of a query together, after those before them. -/
def translatePairs (t : Translator) (path : String) (depth : Nat) (pairs : List (String × Condition))
    (before : Fragment Clause) : Logged (Fragment Clause) :=
  match pairs with
  | [] => return before
  | (field, c) :: rest => do
    let indexed ← t.fieldMap.apply (Path.inside path field)
    let fragment ← translateOn t indexed depth c
    translatePairs t path depth rest (before.merge fragment)
termination_by structural pairs

end

/-- The fragment of a condition on a field. -/
def translate (t : Translator) (field : String) (c : Condition) : Logged (Fragment Clause) := do
  t.translateOn (← t.fieldMap.apply field) 0 c

/-- The fragment of something that should be a query, on the fields under a path. -/
def translateQuery (t : Translator) (path : String) (query : Value) : Logged (Fragment Clause) :=
  t.translateOperand path 0 query

/-- The fragments of the alternatives of a statement. -/
def translateAlternatives (t : Translator) : Statement → Logged (List (Fragment Clause))
  | [] => return []
  | query :: rest => do
    let fragment ← t.translateQuery "" query
    return fragment :: (← translateAlternatives t rest)

/-- The clause of a statement: that of its only alternative, or one that asks for at least one of them. -/
def statementClause : List (Fragment Clause) → Clause
  | [fragment] => .bool fragment
  | fragments => .anyOf (fragments.map .bool)

/-- The clause of each of some statements. -/
def translateEach (t : Translator) : List Statement → Logged (List Clause)
  | [] => return []
  | statement :: rest => do
    let fragments ← t.translateAlternatives statement
    return statementClause fragments :: (← translateEach t rest)

/-- The clause of some statements: that of the only one, or one that asks for all of them. -/
def translateStatements (t : Translator) (statements : List Statement) : Logged Clause := do
  match ← t.translateEach statements with
  | [clause] => return clause
  | clauses => return .bool { filter := some clauses }

end Translator

end Winnow
