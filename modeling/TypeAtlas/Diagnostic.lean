import TypeAtlas.Files.Path

namespace TypeAtlas

inductive FailureKind
  | general
  | sourceRead
  | sourceSyntax
  | folderNotFound
  | config
  deriving DecidableEq, Repr, Inhabited

def FailureKind.name : FailureKind → String
  | .general => "AnalyzerError"
  | .sourceRead => "SourceReadError"
  | .sourceSyntax => "SourceSyntaxError"
  | .folderNotFound => "FolderNotFoundError"
  | .config => "ConfigError"

/-- A report on something that failed: what kind of failure it is, the path it is about, as that was
given, and a message. A place in the file may be known if its syntax is at fault. -/
structure Diagnostic where
  kind : FailureKind
  givenPath : Text
  message : Text
  line : Option Int := none
  column : Option Int := none
  deriving DecidableEq, Repr, Inhabited

/-- What a diagnostic is built from. -/
inductive Argument
  | text (t : Text)
  | number (n : Option Int)
  deriving DecidableEq, Repr, Inhabited

namespace Diagnostic

def path (d : Diagnostic) : Path :=
  .ofText d.givenPath

/-- The message, the path and the place, with colons between them. A line without a column is
followed by `None`. -/
def text (d : Diagnostic) : Text :=
  let place : Text := match d.line with
    | some line => ":" ++ toString line ++ ":" ++ d.column.elim "None" toString
    | none => ""
  d.message ++ ": " ++ d.path.text ++ place

/-- The arguments to build the diagnostic from again. Those of a syntax error include the place. -/
def arguments (d : Diagnostic) : List Argument :=
  let always := [.text d.givenPath, .text d.message]
  if d.kind = .sourceSyntax then always ++ [.number d.line, .number d.column] else always

/-- The diagnostic of a kind with the given arguments: a path, a message and, for a syntax error, up
to two numbers of the place. -/
def ofArguments? (kind : FailureKind) (arguments : List Argument) : Option Diagnostic :=
  match arguments with
  | .text path :: .text message :: place =>
    let d : Diagnostic := { kind, givenPath := path, message }
    match place with
    | [] => some d
    | [.number line] => if kind = .sourceSyntax then some { d with line } else none
    | [.number line, .number column] =>
      if kind = .sourceSyntax then some { d with line, column } else none
    | _ => none
  | _ => none

end Diagnostic

end TypeAtlas
