import Winnow.Condition

/-!
# Merging plain objects

Two objects merged key by key: objects at the same key are merged in turn, lists are put one behind the other, and of
any other two values the right one is kept. Keys keep the place where they first came up.
-/

namespace Winnow

mutual

/-- What two values at the same key merge to. The right value leads the recursion. -/
def mergeValues (right left : Value) : Value :=
  match right with
  | .object entries => match left with
    | .object entries' => .object (mergeEntries entries entries')
    | _ => .object entries
  | .list items => match left with
    | .list items' => .list (items' ++ items)
    | _ => .list items
  | v => v
termination_by structural right

/-- Entries merged into others, one key after the other. -/
def mergeEntries (right left : List (String × Value)) : List (String × Value) :=
  match right with
  | [] => left
  | (key, v) :: rest =>
    let merged := match left.lookup key with
      | some w => mergeValues v w
      | none => v
    mergeEntries rest (Value.insertEntry key merged left)
termination_by structural right

end

/-- Two objects merged, the left one first. -/
def deepMerge (left right : List (String × Value)) : List (String × Value) :=
  mergeEntries right left

/-- Objects merged from first to last. -/
def mergeAll (objects : List (List (String × Value))) : List (String × Value) :=
  objects.foldl deepMerge []

namespace Value

/-- The entries of an object that is to be merged into others. -/
def mergeable : Value → Except Fault (List (String × Value))
  | object entries => .ok entries
  | _ => .error .missingPart

/-- The entry that a sequence of a key and a value spells out, at a position among others. -/
def entryAt (position : Nat) (v : Value) : Except Fault (String × Value) := do
  match ← v.items with
  | [key, value] => match key.asText? with
    | some key => return (key, value)
    | none => throw .kindMismatch
  | items => throw (.notAnEntry position items.length)

/-- The entries that a sequence of pairs spells out from a position on, after those before them. -/
def entriesFrom (position : Nat) (before : List (String × Value)) : List Value → Except Fault (List (String × Value))
  | [] => .ok before
  | v :: rest => do
    let (key, value) ← entryAt position v
    entriesFrom (position + 1) (insertEntry key value before) rest

/-- The entries of an object that others are to be merged into, or those that a sequence of pairs spells out. -/
def mergeBase : Value → Except Fault (List (String × Value))
  | object entries => .ok entries
  | v => do entriesFrom 0 [] (← v.items)

/-- Two values merged as objects. -/
def deepMerge (left right : Value) : Except Fault Value := do
  let base ← left.mergeBase
  return .object (Winnow.deepMerge base (← right.mergeable))

/-- Values merged as objects from first to last. -/
def mergeAll (objects : List Value) : Except Fault Value := do
  return .object (Winnow.mergeAll (← objects.mapM mergeable))

end Value

end Winnow
