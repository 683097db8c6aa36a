import TypeAtlas.Data.Value
import TypeAtlas.Toml.Fault

namespace TypeAtlas.Toml

/-- The value and the rest of a text that starts with `count` decimal digits. -/
def digits? : (count : Nat) → (value : Nat) → List Char → Option (Nat × List Char)
  | 0, value, r => some (value, r)
  | count + 1, value, c :: r =>
    if c.isDigit then digits? count (value * 10 + (c.toNat - '0'.toNat)) r else none
  | _ + 1, _, [] => none

/-- Two digits for a number from `low` to `high`. -/
def twoDigits? (low high : Nat) (r : List Char) : Option (Nat × List Char) :=
  (digits? 2 0 r).filter fun (n, _) => low ≤ n && n ≤ high

def char? (c : Char) : List Char → Option (List Char)
  | d :: r => if d = c then some r else none
  | [] => none

/-- Fractions of a second. Six digits count; where no digit follows the point, nothing is read. -/
def fraction (r : List Char) : Nat × List Char :=
  match r with
  | '.' :: after =>
    let shown := after.takeWhile Char.isDigit
    if shown.isEmpty then (0, r)
    else
      let six := (shown ++ List.replicate 6 '0').take 6
      (six.foldl (fun n c => n * 10 + (c.toNat - '0'.toNat)) 0, after.drop shown.length)
  | _ => (0, r)

/-- Hours, minutes and seconds with colons between them, and a fraction. -/
def timeOfDay? (r : List Char) : Option (TimeOfDay × List Char) := do
  let (hour, r) ← twoDigits? 0 23 r
  let (minute, r) ← twoDigits? 0 59 (← char? ':' r)
  let (second, r) ← twoDigits? 0 59 (← char? ':' r)
  let (microsecond, r) := fraction r
  return (⟨hour, minute, second, microsecond⟩, r)

def offset? (r : List Char) : Option (Int × List Char) :=
  match r with
  | [] => none
  | c :: r =>
    if c = 'Z' ∨ c = 'z' then some (0, r)
    else if c = '+' ∨ c = '-' then do
      let (hours, r) ← twoDigits? 0 23 r
      let (minutes, r) ← twoDigits? 0 59 (← char? ':' r)
      let ahead : Int := hours * 60 + minutes
      return (if c = '-' then -ahead else ahead, r)
    else none

/-- A date as it is written; its day may be one that the month does not have. -/
def date? (r : List Char) : Option (Date × List Char) := do
  let (year, r) ← digits? 4 0 r
  let (month, r) ← twoDigits? 1 12 (← char? '-' r)
  let (day, r) ← twoDigits? 1 31 (← char? '-' r)
  return (⟨year, month, day⟩, r)

/-- A date, or a date with a time after a letter T or a space, and perhaps an offset. -/
def dateOrMoment? (r : List Char) :
    Option ((Date × Option (TimeOfDay × Option Int)) × List Char) := do
  let (date, r) ← date? r
  let timed : Option (TimeOfDay × List Char) := match r with
    | c :: r => if c = 'T' ∨ c = 't' ∨ c = ' ' then timeOfDay? r else none
    | [] => none
  match timed with
  | none => return ((date, none), r)
  | some (time, r) =>
    match offset? r with
    | some (minutes, r) => return ((date, some (time, some minutes)), r)
    | none => return ((date, some (time, none)), r)

/-- The value of a digit in a base. -/
def digitValue? (base : Nat) (c : Char) : Option Nat :=
  let value :=
    if '0' ≤ c ∧ c ≤ '9' then some (c.toNat - '0'.toNat)
    else if 'a' ≤ c ∧ c ≤ 'f' then some (c.toNat - 'a'.toNat + 10)
    else if 'A' ≤ c ∧ c ≤ 'F' then some (c.toNat - 'A'.toNat + 10)
    else none
  value.filter (· < base)

/-- Reads more digits onto a value and counts them; a single underscore may stand before each. -/
def moreDigits (base value count : Nat) : List Char → Nat × Nat × List Char
  | [] => (value, count, [])
  | c :: r =>
    match digitValue? base c with
    | some d => moreDigits base (value * base + d) (count + 1) r
    | none =>
      match c, r with
      | '_', d :: s =>
        match digitValue? base d with
        | some d => moreDigits base (value * base + d) (count + 1) s
        | none => (value, count, c :: r)
      | _, _ => (value, count, c :: r)

/-- Reads digits of which there is at least one; an underscore cannot come first. -/
def digitRun? (base value : Nat) (r : List Char) : Option (Nat × Nat × List Char) :=
  match r with
  | c :: _ => if (digitValue? base c).isSome then some (moreDigits base value 0 r) else none
  | [] => none

/-- An integer in base sixteen, eight or two. -/
def basedInteger? (r : List Char) : Option (Nat × List Char) :=
  match r with
  | '0' :: mark :: r =>
    let base := if mark = 'x' then 16 else if mark = 'o' then 8 else if mark = 'b' then 2 else 0
    if base = 0 then none else (digitRun? base 0 r).map fun (n, _, r) => (n, r)
  | _ => none

/-- The digits of an integer part, and how many they are: a lone zero, or digits of which the first
is not zero. -/
def wholePart? (r : List Char) : Option (Nat × Nat × List Char) :=
  match r with
  | '0' :: r => some (0, 1, r)
  | r => digitRun? 10 0 r

/-- The exponent of a float, if one follows. -/
def exponentPart (r : List Char) : Option (Int × List Char) :=
  match r with
  | e :: r =>
    if e = 'e' ∨ e = 'E' then
      let (isNegative, r) := match r with
        | '-' :: r => (true, r)
        | '+' :: r => (false, r)
        | r => (false, r)
      (digitRun? 10 0 r).map fun (n, _, r) => (if isNegative then -(n : Int) else n, r)
    else none
  | [] => none

/-- An integer with so many decimal digits, unless they are too many. -/
def decimalInteger (isNegative : Bool) (digits count : Nat) : Except Problem Data :=
  if count ≤ Text.digitLimit then .ok (.integer (if isNegative then -(digits : Int) else digits))
  else .error (.tooManyDigits count)

/-- A number. A point with digits or an exponent makes it a float, which may have any number of
digits; so may an integer in another base than ten. -/
def number? (r : List Char) : Option (Except Problem Data × List Char) := do
  if let some (n, r) := basedInteger? r then return (.ok (.integer n), r)
  let (isNegative, r) := match r with
    | '-' :: r => (true, r)
    | '+' :: r => (false, r)
    | r => (false, r)
  let (whole, count, r) ← wholePart? r
  let (digits, places, r) := match r with
    | '.' :: after =>
      match digitRun? 10 whole after with
      | some (n, places, r) => (n, places, r)
      | none => (whole, 0, r)
    | r => (whole, 0, r)
  match exponentPart r with
  | some (e, r) => return (.ok (.real (.ofDecimal isNegative digits (e - places))), r)
  | none =>
    if places = 0 then return (decimalInteger isNegative whole count, r)
    else return (.ok (.real (.ofDecimal isNegative digits (-(places : Int)))), r)

/-- Infinity and what is not a number, with a sign before it or without. -/
def special? (r : List Char) : Option (Data × List Char) :=
  let (isNegative, body) := match r with
    | '-' :: r => (true, r)
    | '+' :: r => (false, r)
    | r => (false, r)
  if "inf".toList.isPrefixOf body then some (.real (.infinity isNegative), body.drop 3)
  else if "nan".toList.isPrefixOf body then some (.real .notANumber, body.drop 3)
  else none

end TypeAtlas.Toml
