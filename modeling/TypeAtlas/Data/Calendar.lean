import TypeAtlas.Text.Basic

namespace TypeAtlas

structure Date where
  year : Nat
  month : Nat
  day : Nat
  deriving DecidableEq, Repr, Inhabited

structure TimeOfDay where
  hour : Nat
  minute : Nat
  second : Nat
  microsecond : Nat
  deriving DecidableEq, Repr, Inhabited

/-- A date with a time, and the minutes by which it is ahead of universal time where that is
said. -/
structure Moment where
  date : Date
  time : TimeOfDay
  offset : Option Int
  deriving DecidableEq, Repr, Inhabited

namespace Date

def isLeapYear (year : Nat) : Bool :=
  year % 4 = 0 && (year % 100 ≠ 0 || year % 400 = 0)

def daysInMonth (year month : Nat) : Nat :=
  if month = 2 then if isLeapYear year then 29 else 28
  else if month = 4 ∨ month = 6 ∨ month = 9 ∨ month = 11 then 30
  else 31

/-- The days there are: the calendar starts with the year one. -/
def IsValid (d : Date) : Prop :=
  1 ≤ d.year ∧ d.year ≤ 9999 ∧ 1 ≤ d.month ∧ d.month ≤ 12 ∧ 1 ≤ d.day ∧
    d.day ≤ daysInMonth d.year d.month

instance (d : Date) : Decidable d.IsValid := by
  unfold IsValid
  infer_instance

end Date

/-- The numbers of a date or time in parentheses. -/
def callText (name : Text) (arguments : List Text) : Text :=
  name ++ "(" ++ Text.join ", " arguments ++ ")"

def Date.fields (d : Date) : List Text :=
  [d.year, d.month, d.day].map fun n => toString n

def Date.quoted (d : Date) : Text :=
  callText "datetime.date" d.fields

/-- Hours and minutes, then seconds and microseconds as far as they matter. -/
def TimeOfDay.fields (t : TimeOfDay) : List Text :=
  let tail :=
    if t.microsecond ≠ 0 then [t.second, t.microsecond]
    else if t.second ≠ 0 then [t.second]
    else []
  (t.hour :: t.minute :: tail).map fun n => toString n

def TimeOfDay.quoted (t : TimeOfDay) : Text :=
  callText "datetime.time" t.fields

/-- An offset as whole days, rounded down, and the seconds above them. -/
def offsetText (minutes : Int) : Text :=
  if minutes = 0 then "datetime.timezone.utc"
  else
    let seconds := minutes * 60
    let days := Int.fdiv seconds 86400
    let rest := Int.fmod seconds 86400
    let day : List Text := if days = 0 then [] else ["days=" ++ toString days]
    let second : List Text := if rest = 0 then [] else ["seconds=" ++ toString rest]
    callText "datetime.timezone" [callText "datetime.timedelta" (day ++ second)]

def Moment.quoted (m : Moment) : Text :=
  let zone : List Text := match m.offset with
    | some minutes => ["tzinfo=" ++ offsetText minutes]
    | none => []
  callText "datetime.datetime" (m.date.fields ++ m.time.fields ++ zone)

end TypeAtlas
