import TypeAtlas.Concurrency.Slots

namespace TypeAtlas.Concurrency

/-- A ceiling on the work in progress at one time, if `limit` is a number. Slots belong to a run of
the event loop. The latest are at the head; a run that does not find its own there gets new ones. -/
structure Limiter (ω : Type) where
  limit : Option Int
  rooms : List (Nat × Slots ω)
  deriving DecidableEq, Repr, Inhabited

namespace Limiter

variable {ω : Type} [DecidableEq ω]

def ofLimit (limit : Option Int) : Limiter ω :=
  { limit, rooms := [] }

/-- The limit as a number of slots. There is no negative number of them. -/
def capacity? (l : Limiter ω) : Option (Option Nat) :=
  match l.limit with
  | none => some none
  | some n => if n < 0 then none else some (some n.toNat)

/-- The limiter with slots for a run at its head. -/
def open? (l : Limiter ω) (run : Nat) : Option (Limiter ω) :=
  match l.rooms with
  | (owner, _) :: _ =>
    if owner = run then some l
    else l.capacity?.map fun limit => { l with rooms := (run, .ofLimit limit) :: l.rooms }
  | [] => l.capacity?.map fun limit => { l with rooms := [(run, .ofLimit limit)] }

/-- Applies `f` to all slots of a run. -/
def update (l : Limiter ω) (run : Nat) (f : Slots ω → Slots ω) : Limiter ω :=
  { l with rooms := l.rooms.map fun room => if room.1 = run then (run, f room.2) else room }

def isPresent (l : Limiter ω) (run : Nat) (w : ω) : Bool :=
  l.rooms.any fun room => room.1 = run && room.2.isPresent w

/-- Someone of a run asks for a slot. Where there can be none, they are gone at once. -/
def enter (l : Limiter ω) (run : Nat) (w : ω) : Limiter ω :=
  if l.isPresent run w then l
  else match l.open? run with
    | some opened =>
      match opened.rooms with
      | (owner, s) :: rest => { opened with rooms := (owner, s.enter w) :: rest }
      | [] => opened
    | none => l

def leave (l : Limiter ω) (run : Nat) (w : ω) : Limiter ω :=
  l.update run (·.leave w)

def cancel (l : Limiter ω) (run : Nat) (w : ω) : Limiter ω :=
  l.update run (·.cancel w)

/-- The run goes on until nobody has a slot to take up. -/
def settle (l : Limiter ω) (run : Nat) : Limiter ω :=
  l.update run Slots.settle

def inside (l : Limiter ω) (run : Nat) : List ω :=
  (l.rooms.filter (·.1 = run)).flatMap (·.2.inside)

def waiting (l : Limiter ω) (run : Nat) : List ω :=
  (l.rooms.filter (·.1 = run)).flatMap (·.2.waiting)

end Limiter

end TypeAtlas.Concurrency
