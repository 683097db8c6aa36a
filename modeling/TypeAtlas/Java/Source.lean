import TypeAtlas.Java.Dependencies
import TypeAtlas.Java.Lexer
import TypeAtlas.Java.Parser.Unit

namespace TypeAtlas.Java

/-- Why nothing is extracted from a source text. -/
inductive SourceFault
  | lexical (fault : LexFault)
  | grammatical (fault : ParseFault)
  | structural (fault : TreeFault)
  deriving DecidableEq, Repr, Inhabited

/-- A report on a source text that is not Java, with a place where that is known. -/
structure Rejection where
  message : Text
  position : Option Position
  deriving DecidableEq, Repr, Inhabited

/-- The report on a fault, for the faults that are reported. -/
def SourceFault.rejection? : SourceFault → Option Rejection
  | .lexical (.malformed problem shown line excerpt) =>
    some
      { message :=
          "Java lexer error (" ++ LexFault.report problem shown line excerpt ++
            ")"
        position := none }
  | .grammatical (.unexpected message position) =>
    some { message := message, position }
  | .grammatical .endOfTokens =>
    some { message := "Unexpected end of input", position := none }
  | _ => none

/-- The syntax tree of a source text. -/
def parse (source : Text) : Except SourceFault Tree := do
  let tokens ← (tokenize source).mapError .lexical
  (parseTokens tokens).mapError .grammatical

/-- What a source text depends on. -/
def extract (implicitPrefix : Text) (source : Text) : Except SourceFault Dependencies := do
  let unit ← parse source
  (unit.dependencies implicitPrefix).mapError .structural

end TypeAtlas.Java
