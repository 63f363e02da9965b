import Winnow.Fault
import Winnow.Log

/-!
# Operations with a log

An operation that leaves events behind and ends with a value or a fault. The events of an operation that fails are kept:
they come before the fault.
-/

namespace Winnow

/-- The events of an operation and how it ends. -/
structure Logged (α : Type) where
  events : List Event
  result : Except Fault α

namespace Logged

/-- One operation after another; the second depends on the value of the first and is left out when that fails. -/
def andThen {α β : Type} (x : Logged α) (f : α → Logged β) : Logged β :=
  match x.result with
  | .ok a => ⟨x.events ++ (f a).events, (f a).result⟩
  | .error fault => ⟨x.events, .error fault⟩

instance : Monad Logged where
  pure a := ⟨[], .ok a⟩
  bind := andThen

/-- An operation that only records an event. -/
def record (event : Event) : Logged Unit :=
  ⟨[event], .ok ()⟩

/-- An operation that leaves nothing behind. -/
def ofResult {α : Type} (result : Except Fault α) : Logged α :=
  ⟨[], result⟩

/-- An operation that only fails. -/
def fail {α : Type} (fault : Fault) : Logged α :=
  ⟨[], .error fault⟩

/-- The records of some events. -/
def records (events : List Event) : List (Level × String) :=
  events.filterMap Event.record?

end Logged

end Winnow
