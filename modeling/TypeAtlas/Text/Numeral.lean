import TypeAtlas.Text.Blank
import TypeAtlas.Text.Digit

namespace TypeAtlas.Text

/-- The most digits that an integer may have where it is read or written in base ten. -/
def digitLimit : Nat := 4300

/-- What is said of an integer with too many digits. Where it is read, they have been counted. -/
def tooManyDigits (count : Option Nat) : Text :=
  let counted := match count with
    | some n => ": value has " ++ n.repr ++ " digits"
    | none => ""
  "Exceeds the limit (" ++ digitLimit.repr ++ " digits) for integer string conversion" ++ counted ++
    "; use sys.set_int_max_str_digits() to increase the limit"

/-- Whether an integer has few enough digits to be written. -/
def isShort (n : Int) : Bool :=
  n.natAbs < Nat.pow 10 digitLimit

/-- An integer in base ten, unless it has too many digits. -/
def ofInt? (n : Int) : Option Text :=
  if isShort n then some n.repr else none

/-- The ASCII code point a numeral may use in place of `c`: decimal digits of every script count as
ASCII digits and blanks beyond ASCII as spaces. -/
def plain? (c : Nat) : Option Nat :=
  if c < 127 then some c
  else if isBlank c then some ' '.toNat
  else (decimalValue? c).map (· + '0'.toNat)

/-- The blanks that may stand around a numeral. -/
def isMargin (c : Nat) : Bool :=
  c = ' '.toNat || (9 ≤ c && c ≤ 13)

/-- The value of an ASCII digit or letter as a digit of a base of at most thirty-six. -/
def digitValue? (base c : Nat) : Option Nat :=
  let value :=
    if '0'.toNat ≤ c && c ≤ '9'.toNat then some (c - '0'.toNat)
    else if 'a'.toNat ≤ c && c ≤ 'z'.toNat then some (c - 'a'.toNat + 10)
    else if 'A'.toNat ≤ c && c ≤ 'Z'.toNat then some (c - 'A'.toNat + 10)
    else none
  value.filter (· < base)

/-- The value of digits with single underscores between them. `digitBefore` says whether the code
point just read was a digit, so that an underscore may follow. -/
def magnitude? (base : Nat) (digitBefore : Bool) (value : Nat) : Text → Option Nat
  | [] => if digitBefore then some value else none
  | c :: t =>
    if c = '_'.toNat then
      if digitBefore then magnitude? base false value t else none
    else match digitValue? base c with
      | some d => magnitude? base true (value * base + d) t
      | none => none

/-- The digits after a base mark; in base sixteen `0x` may stand before them, and one underscore
after it. -/
def marked? (base : Nat) (t : Text) : Option Nat :=
  match t with
  | z :: x :: digits =>
    if base = 16 && z = '0'.toNat && (x = 'x'.toNat || x = 'X'.toNat) then
      match digits with
      | u :: after => magnitude? 16 false 0 (if u = '_'.toNat then after else digits)
      | [] => none
    else magnitude? base false 0 t
  | _ => magnitude? base false 0 t

/-- Reads a whole text as an integer: margins, then a sign, then the digits, of which base ten
allows only so many. -/
def integer? (base : Nat) (t : Text) : Option Int := do
  let t ← t.mapM plain?
  let t := ((t.dropWhile isMargin).reverse.dropWhile isMargin).reverse
  if base = 10 ∧ digitLimit < t.countP fun c => (digitValue? 10 c).isSome then none
  else match t with
  | c :: rest =>
    if c = '-'.toNat then (marked? base rest).map fun n => -(n : Int)
    else if c = '+'.toNat then (marked? base rest).map Int.ofNat
    else (marked? base t).map Int.ofNat
  | [] => none

end TypeAtlas.Text
