import TypeAtlas.Concurrency.Job
import TypeAtlas.Concurrency.Outcome
import TypeAtlas.Concurrency.Slots

namespace TypeAtlas.Concurrency

/-- Which of the workers is meant: the number of the part at each join on the way from the first. -/
abbrev Address := List Nat

/-- How far a worker has come. -/
inductive Stage (ε α : Type)
  /-- It has not begun. -/
  | new
  /-- It is at an operation, for which it has a slot or waits for one. -/
  | operating
  /-- It has been told to give up in an operation, and still has its slot. -/
  | unwinding
  /-- It waits for its parts. -/
  | joining
  | ended (o : Outcome ε α)
  deriving DecidableEq, Repr, Inhabited

/-- Someone with a job, of which `job` is what is left to do, and the workers at the parts of it. -/
inductive Worker (ν ε α : Type)
  | mk (job : Job ν ε α) (stage : Stage ε α) (isCalledOff : Bool) (parts : List (Worker ν ε α))

namespace Worker

variable {ν ε α : Type}

def ofJob (j : Job ν ε α) : Worker ν ε α :=
  .mk j .new false []

def stage : Worker ν ε α → Stage ε α
  | .mk _ stage _ _ => stage

def isCalledOff : Worker ν ε α → Bool
  | .mk _ _ isCalledOff _ => isCalledOff

def parts : Worker ν ε α → List (Worker ν ε α)
  | .mk _ _ _ parts => parts

def outcome? (w : Worker ν ε α) : Option (Outcome ε α) :=
  match w.stage with
  | .ended o => some o
  | _ => none

def at? (w : Worker ν ε α) : Address → Option (Worker ν ε α)
  | [] => some w
  | i :: rest => w.parts[i]?.bind fun p => p.at? rest

def update (w : Worker ν ε α) (f : Worker ν ε α → Worker ν ε α) : Address → Worker ν ε α
  | [] => f w
  | i :: rest =>
    match w with
    | .mk job stage isCalledOff parts =>
      .mk job stage isCalledOff (parts.modify i fun p => p.update f rest)

/-- Only a worker that has not ended can be told to give up. -/
def callOff (w : Worker ν ε α) : Worker ν ε α :=
  match w with
  | .mk _ (.ended _) _ _ => w
  | .mk job stage _ parts => .mk job stage true parts

def withStage (stage : Stage ε α) : Worker ν ε α → Worker ν ε α
  | .mk job _ isCalledOff parts => .mk job stage isCalledOff parts

mutual

/-- The addresses of a worker at `here` and of all workers below it. -/
def addresses (here : Address) : Worker ν ε α → List Address
  | .mk _ _ _ parts => here :: addressesAmong here 0 parts

def addressesAmong (above : Address) (i : Nat) : List (Worker ν ε α) → List Address
  | [] => []
  | p :: ps => p.addresses (above ++ [i]) ++ addressesAmong above (i + 1) ps

end

end Worker

/-- Workers who share slots. -/
structure Crew (ν ε α : Type) where
  root : Worker ν ε α
  slots : Slots Address
  cancelsOnFailure : Bool

namespace Crew

variable {ν ε α : Type}

/-- One worker with a job that has not begun. -/
def start (j : Job ν ε α) (limit : Option Nat) (cancelsOnFailure : Bool) : Crew ν ε α :=
  { root := .ofJob j, slots := .ofLimit limit, cancelsOnFailure }

def update (c : Crew ν ε α) (a : Address) (f : Worker ν ε α → Worker ν ε α) : Crew ν ε α :=
  { c with root := c.root.update f a }

/-- Tells a worker to give up, who then stands in line no longer. -/
def callOff (c : Crew ν ε α) (a : Address) : Crew ν ε α :=
  { c.update a Worker.callOff with slots := c.slots.callOff a }

def callOffParts (c : Crew ν ε α) (a : Address) (count : Nat) : Crew ν ε α :=
  (List.range count).foldl (fun c i => c.callOff (a ++ [i])) c

/-- The worker at `a` ends. -/
def finish (c : Crew ν ε α) (a : Address) (o : Outcome ε α) : Crew ν ε α :=
  c.update a (·.withStage (.ended o))

/-- The worker at `a` comes to a job. -/
def takeOn (c : Crew ν ε α) (a : Address) (j : Job ν ε α) : Crew ν ε α :=
  match j with
  | .done v => c.finish a (.value v)
  | .fail e => c.finish a (.failure e)
  | .operation notes next =>
    { c.update a fun w => .mk (.operation notes next) .operating w.isCalledOff [] with
      slots := c.slots.enter a }
  | .join [] combine => c.finish a (.value (combine []).2)
  | .join parts combine =>
    c.update a fun w => .mk (.join parts combine) .joining w.isCalledOff (parts.map .ofJob)

def leave (c : Crew ν ε α) (a : Address) : Crew ν ε α :=
  { c with slots := c.slots.leave a }

def takeUp (c : Crew ν ε α) (a : Address) : Crew ν ε α :=
  { c with slots := c.slots.takeUp a }

/-- The worker at `a`, who has been told to give up, does so. In an operation this takes two
steps. -/
def giveUp (c : Crew ν ε α) (a : Address) (w : Worker ν ε α) : Crew ν ε α :=
  match w.stage with
  | .operating =>
    if c.slots.inside.contains a then c.update a (·.withStage .unwinding)
    else (c.takeUp a).finish a .cancelled
  | .unwinding => (c.leave a).finish a .cancelled
  | .joining => (c.callOffParts a w.parts.length).finish a .cancelled
  | _ => c.finish a .cancelled

/-- A join ends by the verdict on its parts. Where it is no value, the parts that are left are
told to give up if that is asked for. -/
def conclude (c : Crew ν ε α) (a : Address) (parts : List (Worker ν ε α))
    (combine : List α → List ν × α) : Crew ν ε α :=
  let verdict := Outcome.verdict (fun found => .ok (combine found).2) (parts.map Worker.outcome?)
  let c := if c.cancelsOnFailure then c.callOffParts a parts.length else c
  c.finish a verdict

/-- The crew after the worker at `a` has gone on, if it can. -/
def step? (c : Crew ν ε α) (a : Address) : Option (Crew ν ε α) :=
  match c.root.at? a with
  | none => none
  | some w =>
    match w with
    | .mk _ (.ended _) _ _ => none
    | .mk _ _ true _ => some (c.giveUp a w)
    | .mk job .new false _ => some (c.takeOn a job)
    | .mk (.operation _ next) .operating false _ =>
      if c.slots.inside.contains a then some ((c.leave a).takeOn a next)
      else if c.slots.owners.contains a then some (c.takeUp a)
      else none
    | .mk (.join _ combine) .joining false parts =>
      if Outcome.endWait (parts.map Worker.outcome?) then some (c.conclude a parts combine)
      else none
    | _ => none

/-- The crew after a schedule. A worker whose turn it is goes on if it can. -/
def run (c : Crew ν ε α) (schedule : List Address) : Crew ν ε α :=
  schedule.foldl (fun c a => (c.step? a).getD c) c

/-- Nobody can go on. -/
def IsStuck (c : Crew ν ε α) : Prop :=
  ∀ a, c.step? a = none

/-- Tells everybody to give up, as is done when the work as a whole has ended. -/
def close (c : Crew ν ε α) : Crew ν ε α :=
  (c.root.addresses []).foldl callOff c

end Crew

end TypeAtlas.Concurrency
