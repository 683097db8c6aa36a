namespace TypeAtlas.Decimal

/-- A positive binary fraction `mantissa * 2 ^ exponent` together with the numbers that are rounded
to it: those from a quarter or a half of a unit below to half a unit above, the two ends included if
the mantissa is even. -/
structure Rounded where
  mantissa : Nat
  exponent : Int
  /-- The unit below is half as large, so the interval reaches down a quarter of a unit only. -/
  isPowerOfTwo : Bool
  deriving DecidableEq, Repr

namespace Rounded

/-- The common denominator of the fraction and its interval. -/
def denominator (r : Rounded) : Nat :=
  4 * Nat.pow 2 (-r.exponent).toNat

def scale (r : Rounded) : Nat :=
  Nat.pow 2 r.exponent.toNat

def numerator (r : Rounded) : Nat :=
  4 * r.mantissa * r.scale

def lower (r : Rounded) : Nat :=
  (4 * r.mantissa - if r.isPowerOfTwo then 1 else 2) * r.scale

def upper (r : Rounded) : Nat :=
  (4 * r.mantissa + 2) * r.scale

/-- The two sides of a comparison of `digits * 10 ^ place` with a fraction of the denominator. -/
def sides (r : Rounded) (digits : Nat) (place : Int) (numerator : Nat) : Nat × Nat :=
  (digits * Nat.pow 10 place.toNat * r.denominator, numerator * Nat.pow 10 (-place).toNat)

/-- Says whether `digits * 10 ^ place` is rounded to the fraction. -/
def contains (r : Rounded) (digits : Nat) (place : Int) : Bool :=
  let (x, low) := r.sides digits place r.lower
  let (_, high) := r.sides digits place r.upper
  if r.mantissa % 2 = 0 then low ≤ x && x ≤ high else low < x && x < high

/-- The number of decimal places before the point, which is negative when zeros follow the point:
the fraction is below `10 ^ magnitude` and not below a tenth of that. -/
def magnitude (r : Rounded) : Int :=
  let whole := r.numerator / r.denominator
  if whole = 0 then
    let rec places : Nat → Nat → Int
      | 0, k => -(k : Int)
      | fuel + 1, k =>
        if r.denominator ≤ r.numerator * Nat.pow 10 (k + 1) then -(k : Int) else places fuel (k + 1)
    places (4 * (-r.exponent).toNat) 0
  else (toString whole).length

/-- The decimal of `count` digits that is rounded to the fraction and nearest to it, if there is
one: of all such decimals only the two neighbours of the fraction need a look. Of two as near the
even one is taken. -/
def withDigits? (r : Rounded) (count : Nat) : Option (Nat × Int) :=
  let place := r.magnitude - count
  let below := r.numerator * Nat.pow 10 (-place).toNat / (r.denominator * Nat.pow 10 place.toNat)
  let above := below + 1
  let (x, v) := r.sides below place r.numerator
  let (y, _) := r.sides above place r.numerator
  match r.contains below place, r.contains above place with
  | true, true =>
    some (if v - x < y - v ∨ (v - x = y - v ∧ below % 2 = 0) then below else above, place)
  | true, false => some (below, place)
  | false, true => some (above, place)
  | false, false => none

/-- The decimal of the fewest digits that is rounded to the fraction: an integer and the power of
ten it is multiplied by. Seventeen digits are always enough. -/
def shortest (r : Rounded) : Nat × Int :=
  ((List.range 17).findSome? fun k => r.withDigits? (k + 1)).getD (0, 0)

end Rounded

end TypeAtlas.Decimal
