namespace TypeAtlas.Concurrency

/-- How far someone in line has come: nobody has called them yet, a slot is theirs but they are not
inside yet, or a slot is theirs and they have been told to give up. -/
inductive Turn
  | waiting
  | called
  | calledOff
  deriving DecidableEq, Repr, Inhabited

/-- The slots of one run of an event loop: how many are free, if their number is limited, who is
inside, and who stands in line. -/
structure Slots (ω : Type) where
  free : Option Nat
  inside : List ω
  line : List (ω × Turn)
  deriving DecidableEq, Repr, Inhabited

namespace Slots

variable {ω : Type} [DecidableEq ω]

/-- All of `limit` slots are free. Without a limit there is always one more. -/
def ofLimit (limit : Option Nat) : Slots ω :=
  { free := limit, inside := [], line := [] }

def hasFree (s : Slots ω) : Bool :=
  s.free != some 0

def isPresent (s : Slots ω) (w : ω) : Bool :=
  s.inside.contains w || s.line.any (·.1 = w)

def waiting (s : Slots ω) : List ω :=
  s.line.map (·.1)

/-- Those in line to whom a slot belongs already. -/
def owners (s : Slots ω) : List ω :=
  (s.line.filter (·.2 ≠ .waiting)).map (·.1)

/-- The line after the first who still waits has been called. -/
def callFirst? : List (ω × Turn) → Option (List (ω × Turn))
  | [] => none
  | (w, .waiting) :: rest => some ((w, .called) :: rest)
  | entry :: rest => (callFirst? rest).map (entry :: ·)

/-- Gives a free slot to the first who still waits. -/
def callNext (s : Slots ω) : Slots ω :=
  match s.free, callFirst? s.line with
  | some (n + 1), some line => { s with free := some n, line }
  | _, _ => s

/-- A slot becomes free and goes to the first who still waits. -/
def release (s : Slots ω) : Slots ω :=
  { s with free := s.free.map (· + 1) }.callNext

/-- A newcomer goes inside if a slot is free and nobody is in line, and else to the end of the
line. -/
def enter (s : Slots ω) (w : ω) : Slots ω :=
  if s.isPresent w then s
  else if s.hasFree && s.line.isEmpty then
    { s with free := s.free.map (· - 1), inside := s.inside ++ [w] }
  else { s with line := s.line ++ [(w, .waiting)] }

def leave (s : Slots ω) (w : ω) : Slots ω :=
  if s.inside.contains w then { s with inside := s.inside.erase w }.release else s

/-- Whoever owns a slot in line takes it up, or hands it on if told to give up. -/
def takeUp (s : Slots ω) (w : ω) : Slots ω :=
  let line := s.line.filter (·.1 ≠ w)
  match s.line.find? (·.1 = w) with
  | some (_, .called) => { s with inside := s.inside ++ [w], line }.callNext
  | some (_, .calledOff) => { s with line }.release
  | _ => s

/-- Tells someone in line to give up. They step out; but who owns a slot already keeps it until it
is taken up. -/
def callOff (s : Slots ω) (w : ω) : Slots ω :=
  { s with line := (s.line.filter (· ≠ (w, .waiting))).map fun entry =>
      if entry.1 = w then (w, .calledOff) else entry }

/-- Tells someone to give up, who leaves if inside. -/
def cancel (s : Slots ω) (w : ω) : Slots ω :=
  if s.inside.contains w then s.leave w else s.callOff w

/-- The owners take up their slots, in order, at most `n` of them. -/
def takeUpFirst : Nat → Slots ω → Slots ω
  | 0, s => s
  | n + 1, s =>
    match s.owners with
    | [] => s
    | w :: _ => takeUpFirst n (s.takeUp w)

/-- All owners take up their slots. -/
def settle (s : Slots ω) : Slots ω :=
  takeUpFirst s.line.length s

end Slots

end TypeAtlas.Concurrency
