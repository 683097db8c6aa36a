import TypeAtlas.Concurrency.Outcome

namespace TypeAtlas.Concurrency

/-- A task. It waits for news of its work, and ends with them when its turn comes. A failure at
which nobody has looked is reported in the end, unless the task is hushed. -/
structure Task (ε α : Type) where
  news : Option (Outcome ε α) := none
  outcome : Option (Outcome ε α) := none
  /-- Somebody looks at how the task ends as soon as it does. -/
  isWatched : Bool := false
  /-- Somebody has looked at how the task ended. -/
  isSeen : Bool := false
  /-- Somebody has told the task to give up when it had ended. -/
  isHushed : Bool := false
  deriving DecidableEq, Repr, Inhabited

namespace Task

variable {ε α : Type}

def isFinished (t : Task ε α) : Bool :=
  t.outcome.isSome

/-- Whether it is reported that nobody has looked at the failure of a task. -/
def isReported (t : Task ε α) : Bool :=
  t.outcome.any Outcome.isFailure && !t.isSeen && !t.isHushed

/-- Whether the turn of a task is still to be called for. -/
def isIdle (t : Task ε α) : Bool :=
  t.news.isNone

/-- Only the first news count. -/
def tell (t : Task ε α) (o : Outcome ε α) : Task ε α :=
  { t with news := t.news <|> some o }

/-- A task that is told to give up is going to do so, whatever other news have come before its turn.
If it has ended, no failure of it is reported any more. -/
def callOff (t : Task ε α) : Task ε α :=
  if t.isFinished then { t with isHushed := true } else { t with news := some .cancelled }

/-- The work of a task takes another end than was in sight. So it does if it answers an order to
give up with a failure, or goes on in spite of it. -/
def divert (t : Task ε α) (o : Outcome ε α) : Task ε α :=
  if t.isFinished then t else { t with news := some o }

/-- The turn of a task: it ends with its news. -/
def wake (t : Task ε α) : Task ε α :=
  { t with outcome := t.outcome <|> t.news, isSeen := t.isSeen || t.isWatched }

def see (t : Task ε α) : Task ε α :=
  { t with isSeen := true }

/-- Somebody looks at a task, at once or as soon as it ends. -/
def watch (t : Task ε α) : Task ε α :=
  if t.isFinished then t.see else { t with isWatched := true }

end Task

end TypeAtlas.Concurrency
