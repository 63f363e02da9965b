import Winnow.Fault

/-!
# Walks over data

A walk goes through data that may have problems, in one of two modes: it stops at the first problem, or it goes on and
collects them all in the order in which they were met. In either mode it fails where what it would tell cannot be
written.
-/

namespace Winnow

/-- What a walk does at a problem: stop, or note it and go on. -/
inductive Mode where
  | failFast
  | collect
  deriving DecidableEq

/-- A walk: in either mode, the fault that stopped it, or its value with the problems that were noted. -/
def Walk (α : Type) :=
  Mode → Except Fault (α × List Problem)

namespace Walk

variable {α β : Type}

/-- One walk after another, the second one depending on the value of the first. -/
def andThen (x : Walk α) (f : α → Walk β) : Walk β := fun mode =>
  match x mode with
  | .error fault => .error fault
  | .ok (a, noted) => match f a mode with
    | .error fault => .error fault
    | .ok (b, more) => .ok (b, noted ++ more)

instance : Monad Walk where
  pure a := fun _ => .ok (a, [])
  bind := andThen

/-- A problem; a walk that goes on does so with a given value. -/
def report (place : Place) (cause : Cause) (value : α) : Walk α
  | .failFast => .error (.ofProblem ⟨place, cause⟩)
  | .collect => .ok (value, [⟨place, cause⟩])

/-- A problem that is told with something that was found. -/
def reportShown (place : Place) (cause : String → Cause) (shown : Option String) (value : α) : Walk α :=
  match shown with
  | some shown => report place (cause shown) value
  | none => fun _ => .error .integerUnwritable

/-- A walk over each of some items, with their positions from a first one on. -/
def eachFrom (visit : Nat → α → Walk β) : Nat → List α → Walk (List β)
  | _, [] => pure []
  | i, a :: rest => do
    let b ← visit i a
    let others ← eachFrom visit (i + 1) rest
    return b :: others

/-- A walk over each of some items, with their positions. -/
def each (visit : Nat → α → Walk β) (items : List α) : Walk (List β) :=
  eachFrom visit 0 items

end Walk

end Winnow
