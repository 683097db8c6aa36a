import TypeAtlas.Json.Basic

namespace TypeAtlas.Json

/-- What is left after the blanks at the start. -/
def skipBlanks : List Char → List Char
  | [] => []
  | c :: r => if c = ' ' ∨ c = '\n' ∨ c = '\r' ∨ c = '\t' then skipBlanks r else c :: r

/-- The rest of a text that starts with `word`. -/
def afterWord? : List Char → List Char → Option (List Char)
  | [], r => some r
  | w :: ws, c :: r => if w = c then afterWord? ws r else none
  | _ :: _, [] => none

def hexValue? (c : Char) : Option Nat :=
  if '0' ≤ c ∧ c ≤ '9' then some (c.toNat - '0'.toNat)
  else if 'a' ≤ c ∧ c ≤ 'f' then some (c.toNat - 'a'.toNat + 10)
  else if 'A' ≤ c ∧ c ≤ 'F' then some (c.toNat - 'A'.toNat + 10)
  else none

/-- The code unit that four hexadecimal digits name. -/
def unit? (a b c d : Char) : Option Nat := do
  return ((← hexValue? a) * 16 + (← hexValue? b)) * 256 + (← hexValue? c) * 16 + (← hexValue? d)

/-- The code point of an escape of one letter. -/
def escapeValue? (c : Char) : Option Nat :=
  match c with
  | '"' => some '"'.toNat
  | '\\' => some '\\'.toNat
  | '/' => some '/'.toNat
  | 'n' => some 10
  | 'r' => some 13
  | 't' => some 9
  | 'b' => some 8
  | 'f' => some 12
  | _ => none

/-- Puts a code unit behind the code points read so far, in reverse. A low surrogate behind a high
one makes one code point with it. -/
def pushUnit (u : Nat) (points : List Nat) : List Nat :=
  match points with
  | h :: rest =>
    if 0xDC00 ≤ u ∧ u < 0xE000 ∧ 0xD800 ≤ h ∧ h < 0xDC00 then
      (0x10000 + (h - 0xD800) * 1024 + (u - 0xDC00)) :: rest
    else u :: points
  | [] => [u]

/-- Reads a quoted text up to its closing quote; `points` are the code points so far, in reverse. -/
def readQuoted (points : List Nat) : List Char → Option (Text × List Char)
  | [] => none
  | '"' :: r => some (points.reverse, r)
  | '\\' :: 'u' :: a :: b :: c :: d :: r =>
    match unit? a b c d with
    | some u => readQuoted (pushUnit u points) r
    | none => none
  | '\\' :: c :: r =>
    match escapeValue? c with
    | some v => readQuoted (v :: points) r
    | none => none
  | c :: r => if c.toNat < 32 then none else readQuoted (c.toNat :: points) r

/-- Reads decimal digits onto a value and counts them. -/
def readDigits (value count : Nat) : List Char → Nat × Nat × List Char
  | [] => (value, count, [])
  | c :: r =>
    if c.isDigit then readDigits (value * 10 + (c.toNat - '0'.toNat)) (count + 1) r
    else (value, count, c :: r)

/-- Reads a minus sign, if there is one. -/
def readMinus : List Char → Bool × List Char
  | '-' :: r => (true, r)
  | r => (false, r)

/-- Reads a sign, if there is one. -/
def readSign : List Char → Bool × List Char
  | '+' :: r => (false, r)
  | r => readMinus r

/-- Reads the exponent of a number, if there is one. -/
def readExponent : List Char → Option (Option Int × List Char)
  | e :: r =>
    if e = 'e' ∨ e = 'E' then
      let (isNegative, r) := readSign r
      match readDigits 0 0 r with
      | (_, 0, _) => none
      | (n, _, r) => some (some (if isNegative then -(n : Int) else n), r)
    else some (none, e :: r)
  | [] => some (none, [])

/-- Reads the whole part of a number. A zero in front of other digits is none. -/
def readWhole (r : List Char) : Option (Nat × List Char) :=
  match readDigits 0 0 r with
  | (_, 0, _) => none
  | (n, k, rest) => if 1 < k ∧ r.head? = some '0' then none else some (n, rest)

/-- Reads what follows the point of a number, if there is one, onto its whole part, and counts the
places. -/
def readPlaces (whole : Nat) : List Char → Option (Nat × Nat × List Char)
  | '.' :: r =>
    match readDigits whole 0 r with
    | (_, 0, _) => none
    | (n, k, r) => some (n, k, r)
  | r => some (whole, 0, r)

/-- Reads a number. A point or an exponent makes it a decimal. -/
def readNumber (r : List Char) : Option (Json × List Char) := do
  let (isNegative, r) := readMinus r
  let (whole, r) ← readWhole r
  let (digits, places, r) ← readPlaces whole r
  let (exponent, r) ← readExponent r
  if places = 0 ∧ exponent.isNone then
    return (.integer (if isNegative then -(whole : Int) else whole), r)
  else return (.decimal isNegative digits (exponent.getD 0 - places), r)

mutual

/-- Reads a value after blanks. The fuel bounds the nesting and the number of items. -/
def readValue : Nat → List Char → Option (Json × List Char)
  | 0, _ => none
  | fuel + 1, r =>
    match skipBlanks r with
    | '"' :: r => (readQuoted [] r).map fun (t, r) => (.text t, r)
    | '[' :: r =>
      match skipBlanks r with
      | ']' :: r => some (.array [], r)
      | r => do
        let (j, r) ← readValue fuel r
        let (js, r) ← readItems fuel r
        return (.array (j :: js), r)
    | '\x7b' :: r =>
      match skipBlanks r with
      | '\x7d' :: r => some (.object [], r)
      | r => do
        let (m, r) ← readMember fuel r
        let (ms, r) ← readMembers fuel r
        return (.object (m :: ms), r)
    | r =>
      match afterWord? "null".toList r with
      | some r => some (.null, r)
      | none =>
        match afterWord? "true".toList r with
        | some r => some (.bool true, r)
        | none =>
          match afterWord? "false".toList r with
          | some r => some (.bool false, r)
          | none => readNumber r

/-- Reads the items after the first and the closing bracket. -/
def readItems : Nat → List Char → Option (List Json × List Char)
  | 0, _ => none
  | fuel + 1, r =>
    match skipBlanks r with
    | ']' :: r => some ([], r)
    | ',' :: r => do
      let (j, r) ← readValue fuel r
      let (js, r) ← readItems fuel r
      return (j :: js, r)
    | _ => none

def readMember : Nat → List Char → Option ((Text × Json) × List Char)
  | 0, _ => none
  | fuel + 1, r =>
    match skipBlanks r with
    | '"' :: r => do
      let (k, r) ← readQuoted [] r
      match skipBlanks r with
      | ':' :: r => do
        let (j, r) ← readValue fuel r
        return ((k, j), r)
      | _ => none
    | _ => none

/-- Reads the members after the first and the closing brace. -/
def readMembers : Nat → List Char → Option (List (Text × Json) × List Char)
  | 0, _ => none
  | fuel + 1, r =>
    match skipBlanks r with
    | '\x7d' :: r => some ([], r)
    | ',' :: r => do
      let (m, r) ← readMember fuel r
      let (ms, r) ← readMembers fuel r
      return (m :: ms, r)
    | _ => none

end

/-- The value that a whole text writes. -/
def ofString? (s : String) : Option Json :=
  match readValue (s.toList.length + 1) s.toList with
  | some (j, r) => if skipBlanks r = [] then some j else none
  | none => none

end TypeAtlas.Json
