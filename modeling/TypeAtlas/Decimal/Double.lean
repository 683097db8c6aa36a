import TypeAtlas.Decimal.Shortest

namespace TypeAtlas.Decimal

/-- A floating-point number of sixty-four bits. -/
structure Double where
  bits : UInt64
  deriving DecidableEq, Repr, Inhabited

namespace Double

def infinity (isNegative : Bool) : Double :=
  ⟨if isNegative then 0xFFF0000000000000 else 0x7FF0000000000000⟩

/-- The number nearest to `digits * 10 ^ exponent`. No finite number has more than three hundred and
nine places before the point, and what has more than three hundred and thirty zeros behind it is
nothing. -/
def ofDecimal (isNegative : Bool) (digits : Nat) (exponent : Int) : Double :=
  let places : Int := (toString digits).length + exponent
  let magnitude :=
    if digits = 0 ∨ places < -330 then 0
    else if places > 310 then (infinity false).bits
    else (Float.ofScientific digits (exponent < 0) exponent.natAbs).toBits
  ⟨if isNegative then magnitude ||| 0x8000000000000000 else magnitude⟩

def notANumber : Double :=
  ⟨0x7FF8000000000000⟩

def isNegative (x : Double) : Bool :=
  x.bits >>> 63 = 1

def biasedExponent (x : Double) : Nat :=
  (x.bits >>> 52).toNat % 2048

def fraction (x : Double) : Nat :=
  x.bits.toNat % Nat.pow 2 52

/-- The magnitude of a finite number other than zero. -/
def rounded (x : Double) : Rounded :=
  if x.biasedExponent = 0 then ⟨x.fraction, -1074, false⟩
  else ⟨Nat.pow 2 52 + x.fraction, (x.biasedExponent : Int) - 1075,
    x.fraction = 0 && x.biasedExponent ≠ 1⟩

/-- Digits without the zeros at their end, and the power of ten that makes up for them. -/
def withoutTrailingZeros : Nat → Nat → Int → Nat × Int
  | 0, n, e => (n, e)
  | fuel + 1, n, e =>
    if n ≠ 0 ∧ n % 10 = 0 then withoutTrailingZeros fuel (n / 10) (e + 1) else (n, e)

/-- A positive decimal. From a ten-thousandth up to below ten to the sixteenth it is written with a
point and at least one digit on each side, and otherwise with an exponent of at least two digits. -/
def decimalText (digits : Nat) (exponent : Int) : String :=
  let ds := (toString digits).toList
  let point : Int := ds.length + exponent
  let zeros (n : Int) := List.replicate n.toNat '0'
  if -4 < point ∧ point ≤ 16 then
    if point ≤ 0 then String.ofList ('0' :: '.' :: zeros (-point) ++ ds)
    else if point ≥ ds.length then String.ofList (ds ++ zeros (point - ds.length) ++ ['.', '0'])
    else String.ofList (ds.take point.toNat ++ '.' :: ds.drop point.toNat)
  else
    let power := point - 1
    let mantissa := match ds with
      | [d] => [d]
      | d :: rest => d :: '.' :: rest
      | [] => []
    let size := (toString power.natAbs).toList
    String.ofList (mantissa ++ ['e', if power < 0 then '-' else '+'] ++
      (if size.length < 2 then '0' :: size else size))

/-- The text of a number: the shortest decimal that reads back as the number. -/
def text (x : Double) : String :=
  let sign := if x.isNegative then "-" else ""
  if x.biasedExponent = 2047 then if x.fraction = 0 then sign ++ "inf" else "nan"
  else if x.biasedExponent = 0 ∧ x.fraction = 0 then sign ++ "0.0"
  else
    let (digits, exponent) := x.rounded.shortest
    let (digits, exponent) := withoutTrailingZeros 17 digits exponent
    sign ++ decimalText digits exponent

end Double

end TypeAtlas.Decimal
