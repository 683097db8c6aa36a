import TypeAtlas.Files.Disk

namespace TypeAtlas

/-- A change that cannot be made, and the path at which it fails. -/
structure ChangeFault where
  fault : FileFault
  path : Path
  /-- The target, if it is a link that cannot be made. -/
  target : Option Text := none
  deriving DecidableEq, Repr, Inhabited

namespace Disk

/-- Puts a node into a folder. -/
def place (d : Disk) (folder : Place) (name : Text) (n : Node) : Disk :=
  { d with root := d.root.updateFolder folder fun entries => Node.setEntry entries name n }

/-- Makes an empty folder where there is nothing yet. -/
def makeFolder (d : Disk) (p : Path) : Except FileFault Disk :=
  match d.locate false p with
  | .ok (.vacant folder name) => .ok (d.place folder name (.folder []))
  | .ok (.taken ..) => .error .alreadyExists
  | .error e => .error e

/-- A folder that could not be made at `p` will do if it is there. A name that is too long, be it
that of a target, leaves this open. -/
def acceptFolder (d : Disk) (p : Path) (fault : FileFault) : Except ChangeFault Unit :=
  match d.stat p with
  | .ok (.folder _) => .ok ()
  | .error .nameTooLong => .error { fault := .nameTooLong, path := p }
  | _ => .error { fault, path := p }

/-- Makes a folder and, before it, those above it that are missing. What was made stays if the rest
fails. -/
def makeFolders (d : Disk) (p : Path) : Except ChangeFault Unit × Disk :=
  match d.makeFolder p with
  | .ok made => (.ok (), made)
  | .error .notFound =>
    if h : p.names = [] then (.error { fault := .notFound, path := p }, d)
    else
      have : p.parent.names.length < p.names.length := by
        have := List.length_pos_iff.mpr h
        simp only [Path.parent, List.length_dropLast]
        omega
      match d.makeFolders p.parent with
      | (.error e, d) => (.error e, d)
      | (.ok (), d) =>
        match d.makeFolder p with
        | .ok made => (.ok (), made)
        | .error e => (d.acceptFolder p e, d)
  | .error e => (d.acceptFolder p e, d)
termination_by p.names.length

/-- Gives a file new bytes. A file that does not exist is made, also behind a link. -/
def setContents (d : Disk) (p : Path) (bytes : List UInt8) : Except ChangeFault Disk :=
  match d.locate true p with
  | .ok (.vacant folder name) => .ok (d.place folder name (.file bytes))
  | .ok (.taken _ (.folder _)) => .error { fault := .isAFolder, path := p }
  | .ok (.taken place _) => .ok (d.place place.dropLast (place.getLast?.getD []) (.file bytes))
  | .error e => .error { fault := e, path := p }

/-- The disk after a change, if that was made. -/
def afterwards (d : Disk) : Except ChangeFault Disk → Except ChangeFault Unit × Disk
  | .ok changed => (.ok (), changed)
  | .error e => (.error e, d)

/-- Makes the folder for a path, and then the change. -/
def changeBelow (d : Disk) (p : Path) (change : Disk → Except ChangeFault Disk) :
    Except ChangeFault Unit × Disk :=
  match d.makeFolders p.parent with
  | (.error e, d) => (.error e, d)
  | (.ok (), d) => d.afterwards (change d)

/-- Writes a file after making the folder for it. -/
def deliver (d : Disk) (p : Path) (bytes : List UInt8) : Except ChangeFault Unit × Disk :=
  d.changeBelow p fun d => d.setContents p bytes

/-- Makes a link where there is nothing yet. Path and target must be such as the system can be asked
for; then the target is looked at first. -/
def makeLink (d : Disk) (p : Path) (target : Text) : Except ChangeFault Disk :=
  let made : Except FileFault Disk := do
    let bytes ← systemBytes target
    discard <| systemBytes p.text
    if bytes.isEmpty then throw .notFound
    if maxPathBytes < bytes.length then throw .nameTooLong
    match ← d.locate false p with
    | .vacant folder name => return d.place folder name (.link target)
    | .taken .. => throw .alreadyExists
  made.mapError fun fault => { fault, path := p, target := some target }

/-- Removes a file, a link, or a folder with all that is in it. A folder for which the path has no
name can only be emptied; where the path leads back, the way is gone by then. -/
def remove (d : Disk) (p : Path) : Except ChangeFault Unit × Disk :=
  match d.locate false p with
  | .ok (.taken place _) =>
    if p.names = [] ∨ p.name = ".." then
      let fault := if p.names = [] then .invalidArgument else .notFound
      (.error { fault, path := p }, { d with root := d.root.updateFolder place fun _ => [] })
    else
      let name := place.getLast?.getD []
      let removed := d.root.updateFolder place.dropLast (Node.removeEntry · name)
      (.ok (), { d with root := removed })
  | .ok (.vacant ..) => (.error { fault := .notFound, path := p }, d)
  | .error e => (.error { fault := e, path := p }, d)

end Disk

end TypeAtlas
