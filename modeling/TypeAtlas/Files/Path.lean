import TypeAtlas.Text.Basic

namespace TypeAtlas

/-- Where a path starts: where one stands, or at one of the two roots. -/
inductive PathRoot
  | none
  | single
  | double
  deriving DecidableEq, Repr, Inhabited

/-- A path: its root and the names in it, among which are neither empty ones nor single dots. -/
structure Path where
  root : PathRoot
  names : List Text
  deriving DecidableEq, Repr, Inhabited

namespace Path

/-- The path that a text spells. Empty names and single dots do not count; two slashes at the start,
but not more, are a root of their own. -/
def ofText (t : Text) : Path :=
  let root := match t.takeWhile (· = '/'.toNat) with
    | [] => .none
    | [_, _] => .double
    | _ => .single
  { root, names := (Text.splitOn '/'.toNat t).filter fun n => n ≠ [] && n ≠ "." }

def rootText : PathRoot → Text
  | .none => ""
  | .single => "/"
  | .double => "//"

/-- The shortest spelling of a path; that of an empty one is a dot. -/
def text (p : Path) : Text :=
  match p.root, p.names with
  | .none, [] => "."
  | root, names => rootText root ++ Text.join "/" names

/-- The path of an entry of a directory. -/
def child (p : Path) (name : Text) : Path :=
  { p with names := p.names ++ [name] }

/-- The path `q` as seen from `p`. -/
def append (p q : Path) : Path :=
  match q.root with
  | .none => { p with names := p.names ++ q.names }
  | _ => q

/-- The last name, which is empty if there is none. -/
def name (p : Path) : Text :=
  p.names.getLast?.getD []

def parent (p : Path) : Path :=
  { p with names := p.names.dropLast }

end Path

end TypeAtlas
