import TypeAtlas.Files.Fault
import TypeAtlas.Files.Path

namespace TypeAtlas

/-- A file with its bytes, a link with the path it stands for, or a folder with its entries in the
order in which they are listed. -/
inductive Node
  | file (bytes : List UInt8)
  | link (target : Text)
  | folder (entries : List (Text × Node))
  deriving Inhabited

/-- Where a node is: the names that lead to it from the root, none of them a link. -/
abbrev Place := List Text

namespace Node

def find? (entries : List (Text × Node)) (name : Text) : Option Node :=
  (entries.find? (·.1 = name)).map (·.2)

def at? (n : Node) : Place → Option Node
  | [] => some n
  | name :: rest =>
    match n with
    | .folder entries => (find? entries name).bind fun m => m.at? rest
    | _ => none

/-- The entries with another node under a name. A new name comes last. -/
def setEntry (entries : List (Text × Node)) (name : Text) (n : Node) : List (Text × Node) :=
  if entries.any (·.1 = name) then entries.map fun e => if e.1 = name then (name, n) else e
  else entries ++ [(name, n)]

def removeEntry (entries : List (Text × Node)) (name : Text) : List (Text × Node) :=
  entries.filter (·.1 ≠ name)

/-- Changes the entries of the folder at a place. -/
def updateFolder (n : Node) (place : Place)
    (f : List (Text × Node) → List (Text × Node)) : Node :=
  match n, place with
  | .folder entries, [] => .folder (f entries)
  | .folder entries, name :: rest =>
    match find? entries name with
    | some m => .folder (setEntry entries name (m.updateFolder rest f))
    | none => n
  | _, _ => n
termination_by place

end Node

/-- All files, and the place where relative paths start. -/
structure Disk where
  root : Node
  here : Place
  deriving Inhabited

/-- Where a path leads: to a node, or to a folder that lacks the last name. -/
inductive Spot
  | taken (place : Place) (node : Node)
  | vacant (folder : Place) (name : Text)
  deriving Inhabited

namespace Disk

/-- No name may be longer than this, in bytes. -/
def maxNameBytes : Nat := 255

/-- No path that is asked for may be longer than this, in bytes. -/
def maxPathBytes : Nat := 4095

/-- No path may lead through more links than this. -/
def maxLinks : Nat := 40

/-- The length of a name in bytes, where it has one. -/
def byteCount (name : Text) : Nat :=
  ((Text.encodePath name).toOption.map List.length).getD 0

/-- Follows names from a place on, through at most `links` links. A link in the last place is
followed only if `followsLast` says so. An empty name or a single dot stays in a folder. -/
def walk (d : Disk) (followsLast : Bool) (links : Nat) (place : Place) (names : List Text) :
    Except FileFault Spot :=
  match names with
  | [] =>
    match d.root.at? place with
    | some n => .ok (.taken place n)
    | none => .error .notFound
  | name :: rest =>
    match d.root.at? place with
    | some (.folder entries) =>
      if name = [] ∨ name = "." then d.walk followsLast links place rest
      else if name = ".." then d.walk followsLast links place.dropLast rest
      else if maxNameBytes < byteCount name then .error .nameTooLong
      else match Node.find? entries name with
        | none => if rest = [] then .ok (.vacant place name) else .error .notFound
        | some (.link target) =>
          if rest = [] && !followsLast then .ok (.taken (place ++ [name]) (.link target))
          else match links with
            | 0 => .error .tooManyLinks
            | links + 1 =>
              let start := if ['/'.toNat].isPrefixOf target then [] else place
              d.walk followsLast links start (Text.splitOn '/'.toNat target ++ rest)
        | some _ => d.walk followsLast links (place ++ [name]) rest
    | some _ => .error .notAFolder
    | none => .error .notFound
termination_by (links, names.length)

/-- The bytes of a path, or of the target of a link, for the system. -/
def systemBytes (t : Text) : Except FileFault (List UInt8) := do
  let bytes ← (Text.encodePath t).mapError .notEncodable
  if t.contains 0 then throw .nullCharacter else return bytes

/-- The system cannot be asked for every path. -/
def checkPath (p : Path) : Except FileFault Unit := do
  let bytes ← systemBytes p.text
  if maxPathBytes < bytes.length then throw .nameTooLong

/-- Where a path leads. -/
def locate (d : Disk) (followsLast : Bool) (p : Path) : Except FileFault Spot := do
  checkPath p
  d.walk followsLast maxLinks (if p.root = .none then d.here else []) p.names

/-- What is at a path, which is never a link. -/
def stat (d : Disk) (p : Path) : Except FileFault Node :=
  match d.locate true p with
  | .ok (.taken _ n) => .ok n
  | .ok (.vacant ..) => .error .notFound
  | .error e => .error e

/-- The bytes of a file. -/
def contents (d : Disk) (p : Path) : Except FileFault (List UInt8) :=
  match d.stat p with
  | .ok (.file bytes) => .ok bytes
  | .ok _ => .error .isAFolder
  | .error e => .error e

/-- The entries of a folder. -/
def openFolder (d : Disk) (p : Path) : Except FileFault (List (Text × Node)) :=
  match d.stat p with
  | .ok (.folder entries) => .ok entries
  | .ok _ => .error .notAFolder
  | .error e => .error e

def isFolder (d : Disk) (p : Path) : Bool :=
  match d.stat p with
  | .ok (.folder _) => true
  | _ => false

/-- Whether there is anything at a path. Only a name that is too long leaves this open. -/
def isPresent (d : Disk) (p : Path) : Except FileFault Bool :=
  match d.stat p with
  | .ok _ => .ok true
  | .error .nameTooLong => .error .nameTooLong
  | .error _ => .ok false

/-- The name of what a path stands for. The empty path stands for the folder where relative paths
start. -/
def baseName (d : Disk) (p : Path) : Text :=
  if p.names = [] then
    match p.root with
    | .none => d.here.getLast?.getD []
    | _ => []
  else p.name

end Disk

end TypeAtlas
