import TypeAtlas.Text.Numeral
import TypeAtlas.Text.Quoted

namespace TypeAtlas.Toml

/-- A key with dots: the names from the outermost table inward. -/
abbrev Key := List Text

/-- What a document can do wrong. -/
inductive Problem
  | invalidStatement
  | statementGoesOn
  | missing (what : String)
  | strangeCharacter (c : Char)
  | illegalCharacter (c : Char)
  | declaredTwice (key : Key)
  | overwrites
  | openTableHeader
  | openArrayHeader
  | closedNamespace (key : Key)
  | redefined (key : Key)
  | noEqualsSign
  | badKey
  | openArray
  | openInlineTable
  | duplicateKey (name : Text)
  | strayBackslash
  | badHexValue
  | notAScalar
  | openString
  | badDate
  | badValue
  /-- A decimal integer has so many digits that it is not read. -/
  | tooManyDigits (count : Nat)
  deriving DecidableEq, Repr, Inhabited

/-- A key in a report: its quoted names in parentheses, a single one with a comma after it. -/
def quotedKey (key : Key) : Text :=
  match key with
  | [name] => "(" ++ Text.quoted name ++ ",)"
  | names => "(" ++ Text.join ", " (names.map Text.quoted) ++ ")"

def Problem.message : Problem → Text
  | .invalidStatement => "Invalid statement"
  | .statementGoesOn => "Expected newline or end of document after a statement"
  | .missing what => "Expected " ++ Text.quoted what
  | .strangeCharacter c => "Found invalid character " ++ Text.quoted [c.toNat]
  | .illegalCharacter c => "Illegal character " ++ Text.quoted [c.toNat]
  | .declaredTwice key => "Cannot declare " ++ quotedKey key ++ " twice"
  | .overwrites => "Cannot overwrite a value"
  | .openTableHeader => "Expected ']' at the end of a table declaration"
  | .openArrayHeader => "Expected ']]' at the end of an array declaration"
  | .closedNamespace key => "Cannot mutate immutable namespace " ++ quotedKey key
  | .redefined key => "Cannot redefine namespace " ++ quotedKey key
  | .noEqualsSign => "Expected '=' after a key in a key/value pair"
  | .badKey => "Invalid initial character for a key part"
  | .openArray => "Unclosed array"
  | .openInlineTable => "Unclosed inline table"
  | .duplicateKey name => "Duplicate inline table key " ++ Text.quoted name
  | .strayBackslash => "Unescaped '\\' in a string"
  | .badHexValue => "Invalid hex value"
  | .notAScalar => "Escaped character is not a Unicode scalar value"
  | .openString => "Unterminated string"
  | .badDate => "Invalid date or datetime"
  | .badValue => "Invalid value"
  | .tooManyDigits count => Text.tooManyDigits (some count)

/-- Whether a document with a problem is no TOML. It may well be if an integer in it is too long. -/
def Problem.isOfSyntax : Problem → Bool
  | .tooManyDigits _ => false
  | _ => true

/-- A problem with the line and the column at which the reading stopped; at the end of the document
there is none. -/
structure Fault where
  problem : Problem
  place : Option (Nat × Nat)
  deriving DecidableEq, Repr, Inhabited

/-- What is reported of a document that is no TOML. -/
def Fault.message (f : Fault) : Text :=
  match f.place with
  | some (line, column) =>
    f.problem.message ++ " (at line " ++ toString line ++ ", column " ++ toString column ++ ")"
  | none => f.problem.message ++ " (at end of document)"

/-- Where a reading stopped, and why. -/
structure Stop where
  problem : Problem
  rest : List Char
  deriving Repr

/-- The fault at the place of `document` after which `stop.rest` is left. -/
def Stop.fault (stop : Stop) (document : List Char) : Fault :=
  let before := document.take (document.length - stop.rest.length)
  let column := (before.reverse.takeWhile (· ≠ '\n')).length + 1
  { problem := stop.problem
    place := if stop.rest.isEmpty then none else some (before.count '\n' + 1, column) }

/-- A reading of the start of a text, which leaves the rest. -/
abbrev Reader := StateT (List Char) (Except Stop)

namespace Reader

def stop {α : Type} (problem : Problem) : Reader α := do
  throw ⟨problem, ← get⟩

def stopAt {α : Type} (problem : Problem) (rest : List Char) : Reader α :=
  throw ⟨problem, rest⟩

/-- The next character, which is not read. -/
def peek : Reader (Option Char) := do
  return (← get).head?

def skip (n : Nat) : Reader Unit :=
  modify (·.drop n)

def skipWhile (p : Char → Bool) : Reader Unit :=
  modify (·.dropWhile p)

def startsWith (s : String) : Reader Bool := do
  return s.toList.isPrefixOf (← get)

/-- Reads `s` if it comes next. -/
def accept (s : String) : Reader Bool := do
  if ← startsWith s then
    skip s.length
    return true
  else return false

end Reader

def isSpace (c : Char) : Bool :=
  c = ' ' || c = '\t'

def isSpaceOrNewline (c : Char) : Bool :=
  isSpace c || c = '\n'

/-- Control characters other than a tab. -/
def isControl (c : Char) : Bool :=
  (c.toNat < 32 && c ≠ '\t') || c.toNat = 127

/-- Control characters other than a tab and a line feed. -/
def isControlInLines (c : Char) : Bool :=
  isControl c && c ≠ '\n'

end TypeAtlas.Toml
