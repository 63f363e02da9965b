/-!
# Stable sorting with a test that may fail

A sort by binary insertion. The longest run at the beginning that is in order, or strictly in reverse order, is taken as
it stands; each further item is put behind the items that it is not before, its place being found by halving. Items that
are not before one another keep their order, and the first fault of the test is the fault of the sort.
-/

namespace Winnow.Sorting

variable {ε α : Type}

/-- The items that carry on an ascending run after its last item, and the remaining ones. -/
def ascending (before : α → α → Except ε Bool) (last : α) : List α → Except ε (List α × List α)
  | [] => .ok ([], [])
  | y :: rest => do
    if ← before y last then return ([], y :: rest)
    let (run, others) ← ascending before y rest
    return (y :: run, others)

/-- The items that carry on a strictly descending run after its last item, and the remaining ones. -/
def descending (before : α → α → Except ε Bool) (last : α) : List α → Except ε (List α × List α)
  | [] => .ok ([], [])
  | y :: rest => do
    if ← before y last then
      let (run, others) ← descending before y rest
      return (y :: run, others)
    return ([], y :: rest)

/-- The run at the beginning, in ascending order, and the remaining items. -/
def leadingRun (before : α → α → Except ε Bool) : List α → Except ε (List α × List α)
  | [] => .ok ([], [])
  | [x] => .ok ([x], [])
  | x :: y :: rest => do
    if ← before y x then
      let (run, others) ← descending before y rest
      return ((x :: y :: run).reverse, others)
    else
      let (run, others) ← ascending before y rest
      return (x :: y :: run, others)

/-- An item put into a sorted list behind the items that it is not before; the fuel is the length of the list. -/
def insert (before : α → α → Except ε Bool) (x : α) : Nat → List α → Except ε (List α)
  | 0, sorted => .ok (x :: sorted)
  | fuel + 1, sorted =>
    match sorted.drop (sorted.length / 2) with
    | [] => .ok (x :: sorted)
    | middle :: high => do
      let low := sorted.take (sorted.length / 2)
      if ← before x middle then return (← insert before x fuel low) ++ middle :: high
      return low ++ middle :: (← insert before x fuel high)

/-- Further items put into a sorted list, one after the other. -/
def insertAll (before : α → α → Except ε Bool) (sorted : List α) : List α → Except ε (List α)
  | [] => .ok sorted
  | x :: rest => do insertAll before (← insert before x sorted.length sorted) rest

/-- The items in order. -/
def sort (before : α → α → Except ε Bool) (items : List α) : Except ε (List α) := do
  let (run, others) ← leadingRun before items
  insertAll before run others

end Winnow.Sorting
