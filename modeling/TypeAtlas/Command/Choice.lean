import TypeAtlas.Text.Basic

namespace TypeAtlas

/-- What an option is given: a value, or the two hyphens that stand for none. -/
inductive Given (α : Type)
  | value (a : α)
  | nothing
  deriving DecidableEq, Repr, Inhabited

namespace Given

def value? {α : Type} : Given α → Option α
  | .value a => some a
  | .nothing => none

def map {α β : Type} (f : α → β) : Given α → Given β
  | .value a => .value (f a)
  | .nothing => .nothing

/-- What is given, in a message. -/
def shown {α : Type} (f : α → Text) : Given α → Text
  | .value a => f a
  | .nothing => "[]"

end Given

/-- What cannot be had from an option that is given no value. -/
inductive Need
  | configPath
  | limit
  | outputPath
  deriving DecidableEq, Repr, Inhabited

/-- What a path points at. -/
inductive Mode
  | project
  | package
  | sourceFile
  deriving DecidableEq, Repr, Inhabited

namespace Mode

def all : List Mode :=
  [.project, .package, .sourceFile]

def name : Mode → String
  | .project => "project"
  | .package => "package"
  | .sourceFile => "class"

def ofName? (name : Text) : Option Mode :=
  all.find? fun m => m.name = name

end Mode

/-- How a report is written. -/
inductive Format
  | text
  | json
  deriving DecidableEq, Repr, Inhabited

namespace Format

def all : List Format :=
  [.text, .json]

def name : Format → String
  | .text => "text"
  | .json => "json"

def ofName? (name : Text) : Option Format :=
  all.find? fun f => f.name = name

end Format

end TypeAtlas
