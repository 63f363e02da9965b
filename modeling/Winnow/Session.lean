import Winnow.Decode
import Winnow.Paging
import Winnow.Search.Body

/-!
# Sessions

One current filter, and steps that replace parts of it, continue it after an item, write it and read it back, or put
it to use. A step that fails leaves the filter as it was; what was recorded before the failure stays recorded.
-/

namespace Winnow.Session

/-- A step of a session. -/
inductive Step where
  | replace (changes : List (String × Value))
  | continueAfter (idField : String) (last : Value)
  | roundTrip
  | select (idField : String)
  | search (translator : Translator)
  | validate (options : DecodeOptions)

/-- The answer of a step. -/
inductive Reply (α : Type) where
  | filter (f : Filter)
  | roundTrip (equal : Bool) (f : Filter)
  | items (items : List α)
  | body (body : SearchBody)
  | problems (problems : List Problem)

/-- What a session puts its filter to: items, what is looked at in them, how they are matched, and how relative dates
are read back. -/
structure Setting (α : Type) where
  items : List α
  view : α → Value
  registry : Registry
  readDays : RelativeDate.Reader := RelativeDate.readLoosely

variable {α : Type}

/-- The answer of a step, with the filter after it. -/
def step (s : Setting α) (f : Filter) : Step → Logged (Reply α × Filter)
  | .replace changes => do
    let changed ← .ofResult (f.replace changes)
    return (.filter changed, changed)
  | .continueAfter idField last => do
    let continued ← f.continueAfter idField last
    return (.filter continued, continued)
  | .roundTrip => do
    let read ← Filter.decode { readDays := s.readDays } (← .ofResult f.encode)
    return (.roundTrip (← .ofResult (Fault.ofTest (read.same? f))) read, read)
  | .select idField => do
    return (.items (← .ofResult (f.select s.registry idField s.view s.items)), f)
  | .search translator => do
    return (.body (← translator.build f), f)
  | .validate options => do
    return (.problems (← Filter.problems options (← .ofResult f.encode)), f)

/-- The filter after a step, the same after one that fails. -/
def after (s : Setting α) (f : Filter) (action : Step) : Filter :=
  match (step s f action).result with
  | .ok (_, next) => next
  | .error _ => f

end Winnow.Session
