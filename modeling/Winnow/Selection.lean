import Winnow.Ranking
import Winnow.Registry
import Winnow.Sorting

/-!
# Applying a filter to items

The items that match, in the order of the filter, up to its limit. Items may carry anything beside the value that is
looked at, such as their position.
-/

namespace Winnow

/-- The first items up to a limit. A negative limit leaves that many out at the end, and null takes all. -/
def limited {α : Type} (limit : Value) (items : List α) : Except Fault (List α) :=
  match limit with
  | .null => .ok items
  | .int n => .ok (upTo n)
  | .bool b => .ok (upTo (if b then 1 else 0))
  | _ => .error .kindMismatch
where
  upTo (n : Int) : List α := items.take (if 0 ≤ n then n.toNat else items.length - n.natAbs)

namespace Filter

variable {α : Type}

/-- Whether an item matches every statement. -/
def accepts (f : Filter) (r : Registry) (item : Value) : Except Fault Bool :=
  r.matchesStatements f.statements item

/-- The items that match, in the order in which they were given. -/
def matching (f : Filter) (r : Registry) (view : α → Value) : List α → Except Fault (List α)
  | [] => .ok []
  | x :: rest => do
    let accepted ← f.accepts r (view x)
    let others ← matching f r view rest
    return if accepted then x :: others else others

/-- The items in the order of the filter. -/
def sortItems (f : Filter) (idField : String) (view : α → Value) (items : List α) : Except Fault (List α) := do
  let keyed ← items.mapM fun x => return (← RankKey.of f idField (view x), x)
  let sorted ← Sorting.sort (fun x y => RankKey.before f.direction x.1 y.1) keyed
  return sorted.map (·.2)

/-- The items that match, in the order of the filter, up to its limit. -/
def select (f : Filter) (r : Registry) (idField : String) (view : α → Value) (items : List α) :
    Except Fault (List α) := do
  limited f.limit (← f.sortItems idField view (← f.matching r view items))

end Filter

end Winnow
