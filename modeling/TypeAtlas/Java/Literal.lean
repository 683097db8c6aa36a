import TypeAtlas.Java.LexFault
import TypeAtlas.Text.Numeral

namespace TypeAtlas.Java

/-- How far a scan inside a character or string literal is. -/
inductive LiteralState
  | plain
  | escaped
  | octal
  | octalEnd
  deriving DecidableEq, Repr

/-- What an unfinished literal lacks: its end, or a legal character after a backslash. -/
inductive LiteralFault
  | unclosed
  | illegal (char : Nat)

def isOctal (c : Nat) : Bool :=
  '0'.toNat ≤ c && c ≤ '7'.toNat

/-- The length of the rest of a literal, its closing `quote` included. -/
def literalLength (quote : Nat) : LiteralState → Text → Except LiteralFault Nat
  | _, [] => .error .unclosed
  | state, c :: t =>
    let go (next : LiteralState) := (literalLength quote next t).map (· + 1)
    match state with
    | .plain =>
      if c = '\\'.toNat then go .escaped
      else if c = quote then .ok 1
      else go .plain
    | .escaped =>
      if (Text.ofString "btnfru\"'\\").contains c then go .plain
      else if '0'.toNat ≤ c && c ≤ '3'.toNat then go .octal
      else if '4'.toNat ≤ c && c ≤ '7'.toNat then go .octalEnd
      else .error (.illegal c)
    | .octal =>
      if isOctal c then go .octalEnd
      else if c = '\\'.toNat then go .escaped
      else if c = quote then .ok 1
      else go .octal
    | .octalEnd =>
      if c = '\\'.toNat then go .escaped
      else if c = quote then .ok 1
      else go .plain

/-- The length of a run of digits, which may have underscores between them, and the character that
ends the run. The first count is the length up to the last digit read, the second up to here. -/
def digitRun (isDigit : Nat → Bool) (upToDigit upToHere : Nat) : Text → Nat × Option Nat
  | [] => (upToDigit, none)
  | c :: t =>
    if isDigit c then digitRun isDigit (upToHere + 1) (upToHere + 1) t
    else if c = '_'.toNat then digitRun isDigit upToDigit (upToHere + 1) t
    else (upToDigit, some c)

def isDecimal (c : Nat) : Bool :=
  '0'.toNat ≤ c && c ≤ '9'.toNat

def isBinary (c : Nat) : Bool :=
  c = '0'.toNat || c = '1'.toNat

def isHex (c : Nat) : Bool :=
  (Text.digitValue? 16 c).isSome

def isOneOf (s : String) (c : Nat) : Bool :=
  (Text.ofString s).contains c

/-- Reads digits from `start` on, and one more character when a mark of a long integer follows. The
answer is where the reading stops. -/
def digitsFrom (isDigit : Nat → Bool) (text : Text) (start : Nat) : Except LexFault Nat :=
  match text.drop start with
  | [] => .error .numeralBrokenOff
  | digits =>
    let (length, stop) := digitRun isDigit 0 0 digits
    .ok (start + length + if stop.any (isOneOf "lL") then 1 else 0)

/-- Steps over a character at `here` if it is one of those in `set`. -/
def skipOne (set : String) (text : Text) (here : Nat) : Nat :=
  if text[here]?.any (isOneOf set) then here + 1 else here

/-- The length of a decimal numeral: an integer, or digits, a point, digits, an exponent and a mark,
of which all but the first may be missing. -/
def decimalLength (text : Text) : Except LexFault Nat := do
  let whole ← digitsFrom isDecimal text 0
  if text[whole]?.any (isOneOf ".eEfFdD") then
    let fraction ←
      if text[whole]? = some '.'.toNat then digitsFrom isDecimal text (whole + 1) else pure whole
    let exponent ←
      if text[fraction]?.any (isOneOf "eE") then
        digitsFrom isDecimal text (skipOne "-+" text (fraction + 1))
      else pure fraction
    return skipOne "fFdD" text exponent
  else return whole

/-- How a hexadecimal float can lack its exponent: the place where it was due. -/
inductive NumeralFault
  | fault (cause : LexFault)
  | exponentDue (here : Nat)

/-- The length of a hexadecimal numeral. A point calls for an exponent. -/
def hexLength (text : Text) : Except NumeralFault Nat := do
  let digitsFrom (isDigit : Nat → Bool) (start : Nat) : Except NumeralFault Nat :=
    (digitsFrom isDigit text start).mapError .fault
  let whole ← digitsFrom isHex 2
  if text[whole]?.any (isOneOf ".pP") then
    let fraction ←
      if text[whole]? = some '.'.toNat then digitsFrom isHex (whole + 1) else pure whole
    if text[fraction]?.any (isOneOf "pP") then
      let exponent ← digitsFrom isDecimal (skipOne "-+" text (fraction + 1))
      return skipOne "fFdD" text exponent
    else throw (.exponentDue fraction)
  else return whole

/-- The length of a numeral that starts with an ASCII digit. -/
def numeralLength (text : Text) : Except NumeralFault Nat :=
  let fromDigits (isDigit : Nat → Bool) (start : Nat) :=
    (digitsFrom isDigit text start).mapError .fault
  match text with
  | c :: d :: _ =>
    if c = '0'.toNat && isOneOf "xX" d then hexLength text
    else if c = '0'.toNat && isOneOf "bB" d then fromDigits isBinary 2
    else if c = '0'.toNat && isOctal d then fromDigits isOctal 1
    else (decimalLength text).mapError .fault
  | [c] =>
    if c = '0'.toNat then .error (.fault .numeralBrokenOff)
    else (decimalLength text).mapError .fault
  | [] => .error (.fault .numeralBrokenOff)

end TypeAtlas.Java
