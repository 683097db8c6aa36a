import TypeAtlas.Java.Escape
import TypeAtlas.Java.Literal
import TypeAtlas.Java.Token
import TypeAtlas.Text.Letter

namespace TypeAtlas.Java

/-- How far the split of a text into tokens has come: what is left, where that starts, where the
last token ended, and the current line with the place of its first character. -/
structure Scan where
  rest : Text
  offset : Nat := 0
  tokenEnd : Nat := 0
  line : Nat := 1
  lineStart : Nat := 0

namespace Scan

/-- Passes over blanks or a comment of the given length, counting its lines. -/
def skip (s : Scan) (length : Nat) : Scan :=
  let passed := s.rest.take length
  let lines := passed.count '\n'.toNat
  let tail := (passed.reverse.takeWhile (· ≠ '\n'.toNat)).length
  { s with
    rest := s.rest.drop length
    offset := s.offset + length
    line := s.line + lines
    lineStart := if lines = 0 then s.lineStart else s.offset + length - tail }

/-- The token of the given kind and length, and the scan after it. Line feeds inside a token are not
counted. -/
def token (s : Scan) (kind : TokenKind) (length : Nat) : Token × Scan :=
  ({ kind
     text := Text.toString (s.rest.take length)
     position := ⟨s.line, s.offset + 1 - s.lineStart⟩ },
   { s with
     rest := s.rest.drop length
     offset := s.offset + length
     tokenEnd := s.offset + length })

/-- The refusal of what stands at this place of `text`, showing one of its characters. -/
def refuse (s : Scan) (text : Text) (problem : LexProblem) (shown : Option Nat) : LexFault :=
  match shown with
  | some c => .malformed problem [c] s.line (excerptAt text s.offset)
  | none => .nothingToShow

end Scan

/-- The length of the text up to and including the first occurrence of `stop`. -/
def lengthThrough (stop : Text) : Text → Option Nat
  | [] => none
  | c :: t =>
    if stop.isPrefixOf (c :: t) then some stop.length
    else (lengthThrough stop t).map (· + 1)

/-- The longest operator that the text begins with. -/
def operatorAt? (t : Text) : Option String :=
  Token.operators.find? fun o => (Text.ofString o).isPrefixOf t

def separatorAt? (c : Nat) : Bool :=
  Token.separators.any fun s => s.toNat = c

/-- Reads the blanks, the comment or the token that the rest of a text starts with. -/
def Scan.step (text : Text) (s : Scan) : Except LexFault (Option Token × Scan) :=
  let found (kind : TokenKind) (length : Nat) : Except LexFault (Option Token × Scan) :=
    let (t, s) := s.token kind length
    .ok (some t, s)
  let numeral (length : Except NumeralFault Nat) : Except LexFault (Option Token × Scan) :=
    match length with
    | .ok n => found .literal n
    | .error (.fault cause) => .error cause
    | .error (.exponentDue here) => .error (s.refuse text .hexFloatWithoutExponent s.rest[here]?)
  match s.rest with
  | [] => .ok (none, s)
  | c :: t =>
    let next := t.head?
    if Text.isBlank c then
      .ok (none, s.skip (s.rest.takeWhile Text.isBlank).length)
    else if c = '/'.toNat && next = some '/'.toNat then
      .ok (none, s.skip ((lengthThrough ['\n'.toNat] s.rest).getD s.rest.length))
    else if c = '/'.toNat && next = some '*'.toNat then
      match lengthThrough (Text.ofString "*/") (t.drop 1) with
      | some n => .ok (none, s.skip (n + 2))
      | none => .error (s.refuse text .openComment text[s.tokenEnd]?)
    else if (Text.ofString "...").isPrefixOf s.rest then found .operator 3
    else if c = '@'.toNat then found .atSign 1
    else if c = '.'.toNat && next.any Text.isDigit then
      numeral ((decimalLength s.rest).mapError .fault)
    else if separatorAt? c then found .separator 1
    else if c = '"'.toNat || c = '\''.toNat then
      match literalLength c .plain t with
      | .ok n => found .literal (n + 1)
      | .error .unclosed => .error (s.refuse text .openLiteral text[s.tokenEnd]?)
      | .error (.illegal d) => .error (s.refuse text .illegalEscape (some d))
    else if isDecimal c then numeral (numeralLength s.rest)
    else if Text.beginsName c then
      let length := (s.rest.takeWhile Text.continuesName).length
      found (Token.kindOfWord (Text.toString (s.rest.take length))) length
    else match operatorAt? s.rest with
      | some o => found .operator o.length
      | none => .error (s.refuse text .notAToken (some c))

/-- Splits the rest of a text in at most `fuel` steps. -/
def Scan.tokens (text : Text) : Nat → Scan → Except LexFault (List Token)
  | 0, _ => .ok []
  | fuel + 1, s =>
    if s.rest.isEmpty then .ok []
    else do
      let (token, s) ← s.step text
      let rest ← Scan.tokens text fuel s
      return token.toList ++ rest

/-- The tokens of a text. Each step takes at least one character, so there are no more steps than
characters. -/
def tokenize (source : Text) : Except LexFault (List Token) := do
  let text ← unescape source
  Scan.tokens text text.length { rest := text }

end TypeAtlas.Java
