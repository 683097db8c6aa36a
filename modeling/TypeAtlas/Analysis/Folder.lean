import TypeAtlas.Files.Disk

namespace TypeAtlas

/-- What an entry of a folder is to an analysis. -/
inductive EntryKind
  | source
  | folder
  | linkedFolder
  | other
  deriving DecidableEq, Repr, Inhabited

/-- The entries of a folder that matter, by their names. -/
structure Listing where
  sources : List Text
  folders : List Text
  linkedFolders : List Text
  deriving DecidableEq, Repr, Inhabited

/-- A folder that a search comes to and cannot list, and why. -/
structure WalkFault where
  path : Path
  fault : FileFault
  deriving DecidableEq, Repr, Inhabited

def hasExtension (extension name : Text) : Bool :=
  extension.isSuffixOf name

/-- The name without the extension, if it ends with that. Only one extension is taken off. -/
def withoutExtension (extension name : Text) : Text :=
  if hasExtension extension name then
    name.take (name.length - extension.length)
  else name

namespace Disk

/-- What an entry is. A link is what it leads to, but a folder behind a link is left out. A link
that leads nowhere does not count, while one that cannot be followed is a fault. -/
def entryKind (d : Disk) (folder : Path) (extension name : Text) (n : Node) :
    Except FileFault EntryKind :=
  let asFile := if hasExtension extension name then EntryKind.source else .other
  match n with
  | .folder _ => .ok .folder
  | .file _ => .ok asFile
  | .link _ =>
    match d.stat (folder.child name) with
    | .ok (.folder _) => .ok .linkedFolder
    | .ok _ => .ok asFile
    | .error .notFound => .ok .other
    | .error e => .error e

/-- The kinds of all entries. -/
def entryKinds (d : Disk) (folder : Path) (extension : Text) :
    List (Text × Node) → Except FileFault (List (Text × EntryKind))
  | [] => .ok []
  | (name, n) :: entries => do
    let kind ← d.entryKind folder extension name n
    return (name, kind) :: (← d.entryKinds folder extension entries)

def namesOf (kinds : List (Text × EntryKind)) (kind : EntryKind) : List Text :=
  (kinds.filter (·.2 = kind)).map (·.1)

/-- The listing of a folder with the given entries. -/
def listing (d : Disk) (folder : Path) (extension : Text) (entries : List (Text × Node)) :
    Except FileFault Listing := do
  let kinds ← d.entryKinds folder extension entries
  return {
    sources := namesOf kinds .source
    folders := namesOf kinds .folder
    linkedFolders := namesOf kinds .linkedFolder }

/-- The folder in `parent` with the given name, which may be behind a link. -/
def childFolder? (d : Disk) (parent : Path) (name : Text) : Except FileFault (Option Path) := do
  let entries ← d.openFolder parent
  match Node.find? entries name with
  | some (.folder _) => return some (parent.child name)
  | some (.link _) =>
    match d.stat (parent.child name) with
    | .ok (.folder _) => return some (parent.child name)
    | .ok _ | .error .notFound => return none
    | .error e => throw e
  | _ => return none

/-- Whether an entry is a folder, be it behind a link. -/
def isFolderEntry (d : Disk) (folder : Path) (name : Text) : Node → Bool
  | .folder _ => true
  | .file _ => false
  | .link _ => d.isFolder (folder.child name)

mutual

/-- The first folder with the given name in or below a node that is no link: one in the node itself,
or else the first in or below its folders, in their order. A search that comes to a folder which
cannot be listed ends there. -/
def findBelow (d : Disk) (name : Text) (path : Path) : Node → Except WalkFault (Option Path)
  | .folder entries => do
    (checkPath path).mapError (WalkFault.mk path)
    if (Node.find? entries name).any (d.isFolderEntry path name) then return some (path.child name)
    else findAmong d name path entries
  | _ => return none

def findAmong (d : Disk) (name : Text) (path : Path) :
    List (Text × Node) → Except WalkFault (Option Path)
  | [] => return none
  | (child, n) :: entries => do
    match ← findBelow d name (path.child child) n with
    | some found => return some found
    | none => findAmong d name path entries

end

/-- The first folder with the given name anywhere below `root`. -/
def search (d : Disk) (root : Path) (name : Text) : Except WalkFault (Option Path) := do
  let entries ← (d.openFolder root).mapError (WalkFault.mk root)
  d.findBelow name root (.folder entries)

/-- The first folder with the given name anywhere below `root`, or why the search for it ended,
whichever folder it had come to. -/
def descendantFolder? (d : Disk) (root : Path) (name : Text) : Except FileFault (Option Path) :=
  (d.search root name).mapError WalkFault.fault

end Disk

end TypeAtlas
