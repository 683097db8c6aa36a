namespace TypeAtlas.Concurrency

/-- Work to be done, on which notes are taken. An operation needs a slot; what comes of it is said
by the job after it. A join does jobs side by side and makes its result of theirs. -/
inductive Job (ν ε α : Type)
  | done (a : α)
  | fail (e : ε)
  | operation (notes : List ν) (next : Job ν ε α)
  | join (parts : List (Job ν ε α)) (combine : List α → List ν × α)

namespace Job

variable {ν ε α : Type}

mutual

/-- What comes of a job if everything in it is done in order. -/
def result : Job ν ε α → Except ε α
  | .done a => .ok a
  | .fail e => .error e
  | .operation _ next => next.result
  | .join parts combine => (results parts).map fun found => (combine found).2

/-- What comes of several jobs, one after the other. -/
def results : List (Job ν ε α) → Except ε (List α)
  | [] => .ok []
  | j :: js => do return (← j.result) :: (← results js)

end

mutual

/-- The most operations that have to be done one after the other. -/
def length : Job ν ε α → Nat
  | .done _ | .fail _ => 0
  | .operation _ next => next.length + 1
  | .join parts _ => maxLength parts

def maxLength : List (Job ν ε α) → Nat
  | [] => 0
  | j :: js => max j.length (maxLength js)

end

def done? : Job ν ε α → Option α
  | .done a => some a
  | _ => none

/-- What several jobs have come to, if all of them are done. -/
def allDone? : List (Job ν ε α) → Option (List α)
  | [] => some []
  | j :: js => do return (← j.done?) :: (← allDone? js)

def isDone (j : Job ν ε α) : Bool :=
  j.done?.isSome

end Job

end TypeAtlas.Concurrency
