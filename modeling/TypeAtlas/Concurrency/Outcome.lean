namespace TypeAtlas.Concurrency

/-- How a task ends. -/
inductive Outcome (ε α : Type)
  | value (a : α)
  | failure (e : ε)
  | cancelled
  deriving DecidableEq, Repr, Inhabited

namespace Outcome

variable {ε α : Type}

def isFailure : Outcome ε α → Bool
  | .failure _ => true
  | _ => false

def value? : Outcome ε α → Option α
  | .value a => some a
  | _ => none

/-- Forgets the value. -/
def fault? {β : Type} : Outcome ε α → Option (Outcome ε β)
  | .value _ => none
  | .failure e => some (.failure e)
  | .cancelled => some .cancelled

def ofExcept : Except ε α → Outcome ε α
  | .ok a => .value a
  | .error e => .failure e

/-- Whether nobody needs to wait for some tasks any more: all have ended, or one has failed. One
that was cancelled ends the wait only if it is the last. -/
def endWait (outcomes : List (Option (Outcome ε α))) : Bool :=
  outcomes.all Option.isSome || outcomes.any (·.any isFailure)

/-- What comes of some tasks together: what came of the first in order that failed or was cancelled,
or else what `combine` makes of all values. -/
def verdict {β : Type} (combine : List α → Except ε β) (outcomes : List (Option (Outcome ε α))) :
    Outcome ε β :=
  match outcomes.findSome? (·.bind fault?) with
  | some fault => fault
  | none => ofExcept (combine (outcomes.filterMap (·.bind value?)))

end Outcome

end TypeAtlas.Concurrency
