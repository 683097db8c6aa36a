import TypeAtlas.Concurrency.Task

namespace TypeAtlas.Concurrency

inductive Phase (ε β : Type)
  /-- The join waits for its tasks. -/
  | waiting
  /-- The join need not wait any more, but has not gone on yet. -/
  | released
  | ended (o : Outcome ε β)
  deriving DecidableEq, Repr, Inhabited

/-- Whose turn it is. -/
inductive Call
  /-- A task that has news. -/
  | task (i : Nat)
  /-- The wait of the join, which hears that a task has ended. -/
  | notice (i : Nat)
  /-- The join, which need not wait any more or has been told to give up. -/
  | join
  deriving DecidableEq, Repr, Inhabited

/-- A join over some of the tasks, which it names in the order of their results. It ends with what
`combine` makes of all results, or as one of its tasks did that came to none. The turns on the
agenda are taken in order. -/
structure Join (ε α β : Type) where
  awaited : List Nat
  combine : List α → Except ε β
  cancelsOnFailure : Bool
  tasks : List (Task ε α)
  phase : Phase ε β
  isCalledOff : Bool
  /-- How many tasks the wait has not heard of yet. -/
  unheard : Nat
  agenda : List Call

namespace Join

variable {ε α β : Type}

/-- A join over `n` new tasks. An empty join has its result at once. -/
def start (n : Nat) (awaited : List Nat) (combine : List α → Except ε β) (cancelsOnFailure : Bool) :
    Join ε α β :=
  { awaited, combine, cancelsOnFailure, tasks := List.replicate n {}
    phase := if awaited.isEmpty then .ended (.ofExcept (combine [])) else .waiting
    isCalledOff := false, unheard := awaited.eraseDups.length, agenda := [] }

/-- How the awaited tasks ended, in order, of those that did. -/
def outcomes (j : Join ε α β) : List (Option (Outcome ε α)) :=
  j.awaited.filterMap fun i => (j.tasks[i]?).map Task.outcome

def isEnded (j : Join ε α β) : Bool :=
  match j.phase with
  | .ended _ => true
  | _ => false

def call (j : Join ε α β) (c : Call) : Join ε α β :=
  { j with agenda := j.agenda ++ [c] }

/-- Changes a task, which has its turn if the change brings it news. -/
def inform (j : Join ε α β) (i : Nat) (f : Task ε α → Task ε α) : Join ε α β :=
  match j.tasks[i]? with
  | none => j
  | some t =>
    let informed := { j with tasks := j.tasks.set i (f t) }
    if t.isIdle then informed.call (.task i) else informed

/-- Brings news to a task. -/
def tell (j : Join ε α β) (i : Nat) (o : Outcome ε α) : Join ε α β :=
  j.inform i (·.tell o)

/-- Tells a task to give up. -/
def callOff (j : Join ε α β) (i : Nat) : Join ε α β :=
  j.inform i Task.callOff

/-- A task does not end as it was told to. -/
def divert (j : Join ε α β) (i : Nat) (o : Outcome ε α) : Join ε α β :=
  j.inform i (·.divert o)

/-- Tells the join to give up. -/
def cancel (j : Join ε α β) : Join ε α β :=
  match j.phase with
  | .waiting => if j.isCalledOff then j else { j with isCalledOff := true }.call .join
  | .released => { j with isCalledOff := true }
  | .ended _ => j

/-- The wait is over, unless it was broken off. -/
def release (j : Join ε α β) : Join ε α β :=
  match j.phase with
  | .waiting => if j.isCalledOff then j else { j with phase := .released }.call .join
  | _ => j

/-- A task ends. While the join waits for it, the wait hears of that. -/
def wake (j : Join ε α β) (i : Nat) : Join ε α β :=
  let woken := { j with tasks := j.tasks.modify i Task.wake }
  if j.awaited.contains i && !j.isEnded then woken.call (.notice i) else woken

/-- The wait hears that a task has ended. It is over if this was the last one, and then nobody looks
how that ended; of any other it looks whether it failed, and is over if so. -/
def hear (j : Join ε α β) (i : Nat) : Join ε α β :=
  let j := { j with unheard := j.unheard - 1 }
  if j.unheard = 0 then j.release
  else
    let seen := { j with tasks := j.tasks.modify i Task.see }
    if (j.tasks[i]?.bind Task.outcome).any Outcome.isFailure then seen.release else seen

/-- The tasks of the join that have not ended. -/
def pending (j : Join ε α β) : List Nat :=
  j.awaited.filter fun i => (j.tasks[i]?.bind Task.outcome).isNone

/-- The join ends by its verdict. It looks at all its tasks, at those that are left as soon as they
end, and tells these to give up if that is asked for. -/
def conclude (j : Join ε α β) : Join ε α β :=
  let verdict := Outcome.verdict j.combine j.outcomes
  let calledOff := if j.cancelsOnFailure then j.pending.foldl callOff j else j
  let watched := calledOff.awaited.foldl (fun tasks i => tasks.modify i Task.watch) calledOff.tasks
  { calledOff with tasks := watched, phase := .ended verdict }

/-- The join goes on. If it was told to give up, it only tells its tasks so. -/
def resume (j : Join ε α β) : Join ε α β :=
  if j.isEnded then j
  else if j.isCalledOff then { j.awaited.foldl callOff j with phase := .ended .cancelled }
  else j.conclude

/-- The next turn is taken, if there is one. -/
def step? (j : Join ε α β) : Option (Join ε α β) :=
  match j.agenda with
  | [] => none
  | c :: rest =>
    let j := { j with agenda := rest }
    match c with
    | .task i => some (j.wake i)
    | .notice i => some (j.hear i)
    | .join => some j.resume

/-- At most `n` turns are taken. -/
def stepUpTo : Nat → Join ε α β → Join ε α β
  | 0, j => j
  | n + 1, j =>
    match j.step? with
    | none => j
    | some next => next.stepUpTo n

/-- An upper bound for the turns that are left: a task can have one, bring about one for the wait,
and that one for the join. -/
def turnsLeft (j : Join ε α β) : Nat :=
  4 * j.tasks.length + 3 * j.agenda.length

/-- All turns are taken. -/
def settle (j : Join ε α β) : Join ε α β :=
  j.stepUpTo j.turnsLeft

end Join

end TypeAtlas.Concurrency
