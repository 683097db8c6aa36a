import TypeAtlas.Json.Basic

namespace TypeAtlas.Json

/-- The lower-case hexadecimal digit of a number below sixteen. -/
def hexDigit (n : Nat) : Char :=
  if n < 10 then Char.ofNat ('0'.toNat + n) else Char.ofNat ('a'.toNat + (n - 10))

/-- The escape of a code unit of sixteen bits. -/
def escapeUnit (u : Nat) : List Char :=
  ['\\', 'u', hexDigit (u / 4096 % 16), hexDigit (u / 256 % 16), hexDigit (u / 16 % 16),
    hexDigit (u % 16)]

/-- A code point in a quoted text: printable ASCII as it is, the rest by escapes. A code point of
more than sixteen bits is escaped as two surrogates. -/
def escapePoint (c : Nat) : List Char :=
  if c = '"'.toNat then ['\\', '"']
  else if c = '\\'.toNat then ['\\', '\\']
  else if c = 10 then ['\\', 'n']
  else if c = 13 then ['\\', 'r']
  else if c = 9 then ['\\', 't']
  else if c = 8 then ['\\', 'b']
  else if c = 12 then ['\\', 'f']
  else if 32 ≤ c ∧ c ≤ 126 then [Char.ofNat c]
  else if c < 0x10000 then escapeUnit c
  else escapeUnit (0xD800 + (c - 0x10000) / 1024) ++ escapeUnit (0xDC00 + (c - 0x10000) % 1024)

def quoted (t : Text) : List Char :=
  '"' :: t.flatMap escapePoint ++ ['"']

/-- Where the items of arrays and objects stand: on one line, or on lines of their own with two
spaces of margin for each level. -/
inductive Layout
  | line
  | lines
  deriving DecidableEq, Repr

/-- What stands before an item at a depth. -/
def Layout.gap (l : Layout) (depth : Nat) : List Char :=
  match l with
  | .line => []
  | .lines => '\n' :: List.replicate (2 * depth) ' '

def decimalText (isNegative : Bool) (digits : Nat) (exponent : Int) : List Char :=
  (if isNegative then ['-'] else []) ++ (toString digits).toList ++
    'e' :: (toString exponent).toList

mutual

/-- The text of a value at a depth. Empty arrays and objects have nothing between their brackets. -/
def write (l : Layout) (depth : Nat) : Json → List Char
  | .null => "null".toList
  | .bool true => "true".toList
  | .bool false => "false".toList
  | .integer n => (toString n).toList
  | .decimal s d e => decimalText s d e
  | .text t => quoted t
  | .array [] => ['[', ']']
  | .array (j :: js) =>
    '[' :: l.gap (depth + 1) ++ write l (depth + 1) j ++ writeItems l (depth + 1) js ++
      l.gap depth ++ [']']
  | .object [] => ['\x7b', '\x7d']
  | .object ((k, j) :: ms) =>
    '\x7b' :: l.gap (depth + 1) ++ quoted k ++ ':' :: ' ' ::
      write l (depth + 1) j ++ writeMembers l (depth + 1) ms ++ l.gap depth ++ ['\x7d']

def writeItems (l : Layout) (depth : Nat) : List Json → List Char
  | [] => []
  | j :: js => ',' :: l.gap depth ++ write l depth j ++ writeItems l depth js

def writeMembers (l : Layout) (depth : Nat) : List (Text × Json) → List Char
  | [] => []
  | (k, j) :: ms =>
    ',' :: l.gap depth ++ quoted k ++ ':' :: ' ' :: write l depth j ++
      writeMembers l depth ms

end

/-- The text of a value with one item a line. -/
def indented (j : Json) : String :=
  String.ofList (write .lines 0 j)

/-- The text of a value on one line. -/
def oneLine (j : Json) : String :=
  String.ofList (write .line 0 j)

end TypeAtlas.Json
