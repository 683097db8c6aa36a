import TypeAtlas.Text.Blank

namespace TypeAtlas.Java

/-- What a text can hold that is no token. -/
inductive LexProblem
  | badEscape
  | openComment
  | openLiteral
  | illegalEscape
  | hexFloatWithoutExponent
  | notAToken
  deriving DecidableEq, Repr, Inhabited

def LexProblem.message : LexProblem → String
  | .badEscape => "Invalid unicode escape"
  | .openComment => "Unterminated block comment"
  | .openLiteral => "Unterminated character/string literal"
  | .illegalEscape => "Illegal escape character"
  | .hexFloatWithoutExponent => "Invalid hex float literal"
  | .notAToken => "Could not process token"

/-- Why a text cannot be split into tokens. A `malformed` text is refused with a report; the other
three end the split without one. -/
inductive LexFault
  /-- The text breaks a rule; the report shows some characters, the line number and the line. -/
  | malformed (problem : LexProblem) (shown : Text) (line : Nat) (excerpt : Text)
  /-- A rule is broken where the text has no character left to show. -/
  | nothingToShow
  /-- A numeral breaks off where its digits are due. -/
  | numeralBrokenOff
  /-- A unicode escape names a negative code point. -/
  | negativeEscape
  deriving DecidableEq, Repr, Inhabited

namespace LexFault

/-- The report on a malformed text. -/
def report (problem : LexProblem) (shown : Text) (line : Nat) (excerpt : Text) : Text :=
  Text.ofString problem.message ++ Text.ofString " at \"" ++ shown ++ Text.ofString "\", line " ++
    Text.ofString (toString line) ++ Text.ofString ": " ++ excerpt

end LexFault

/-- The line that holds the code point at `offset`, without margins. The last line of a text is
shown without its last character unless a line feed ends it. -/
def excerptAt (text : Text) (offset : Nat) : Text :=
  let before := (text.take offset).reverse.takeWhile (· ≠ '\n'.toNat)
  let after := text.drop offset
  let line :=
    if after.contains '\n'.toNat then before.reverse ++ after.takeWhile (· ≠ '\n'.toNat)
    else (before.reverse ++ after).dropLast
  Text.strip line

end TypeAtlas.Java
