import TypeAtlas.Command.Line

open TypeAtlas

namespace TypeAtlas

/-- The node with `m` put at a place. Folders on the way there are made. -/
def Node.graft (n m : Node) : Place → Node
  | [] => m
  | name :: rest =>
    let entries := match n with
      | .folder entries => entries
      | _ => []
    let below := (Node.find? entries name).getD (.folder [])
    .folder (Node.setEntry entries name (below.graft m rest))

/-- The path of a place from the root on. -/
def pathOfPlace (place : Place) : Path :=
  { root := .single, names := place }

/-- The paths on the way to a path, which is the last of them. -/
def Path.steps (p : Path) : List Path :=
  (List.range (p.names.length + 1)).map fun n => { p with names := p.names.take n }

/-- The paths that a command itself names or knows. -/
def Command.Wish.paths : Command.Wish → List Path
  | .run path a =>
    [.ofText ".", path, path.child ownConfigFile, path.child sharedConfigFile] ++
      (a.config.bind Given.value?).toList ++ (a.output.bind Given.value?).toList
  | .help => []

/-- Whether a command has to know what is below the path it is given. -/
def Command.Wish.isDeep : Command.Wish → Bool
  | .run _ a => a.mode ≠ .value .sourceFile
  | .help => false

/-- The place of what a path leads to, if there is anything. -/
def realPlace? (p : Path) : IO (Option Place) := do
  try
    let real ← IO.FS.realPath p.text.toString
    return some (Path.ofText (toString real)).names
  catch _ => return none

/-- What is at a place: a file if its bytes can be read, and a folder otherwise. -/
def picture (place : Place) : IO Node := do
  try
    let bytes ← IO.FS.readBinFile (pathOfPlace place).text.toString
    return .file bytes.data.toList
  catch _ => return .folder []

/-- Adds what is at a path to the picture of all files. A name that leads to another place than its
own is a link. What is in the picture already is not looked at again. -/
def addPicture (root : Node) (p : Path) : IO Node := do
  match ← realPlace? p, ← realPlace? p.parent with
  | some place, some folder =>
    let own := folder ++ [p.name]
    let isLink := p.names ≠ [] && p.name ≠ ".." && place ≠ own
    let root := if isLink then root.graft (.link (pathOfPlace place).text) own else root
    if (root.at? place).isSome then return root
    else return root.graft (← picture place) place
  | _, _ => return root

/-- The names on a stream, one on each line. -/
partial def readNames (input : IO.FS.Stream) (names : List Text) : IO (List Text) := do
  let line ← input.getLine
  if line.isEmpty then return names
  else readNames input (names ++ [(Text.ofString line).filter (· ≠ '\n'.toNat)])

/-- Writes to a file what a command has written to its picture. -/
def writeBack (d : Disk) (p : Path) : IO Unit := do
  match d.contents p with
  | .ok bytes =>
    IO.FS.createDirAll p.parent.text.toString
    IO.FS.writeBinFile p.text.toString (ByteArray.mk bytes.toArray)
  | .error _ => return ()

end TypeAtlas

/-- Carries out a command line. The files below the path in it are those that are named on the
standard input, one on each line; a command for a single file reads no names. -/
def main (args : List String) : IO UInt32 := do
  let arguments := args.map Text.ofString
  let wish := (Command.Arguments.ofList arguments).toOption
  let named ← if wish.any Command.Wish.isDeep then readNames (← IO.getStdin) [] else pure []
  let paths := (wish.map Command.Wish.paths).getD [] ++ named.map Path.ofText
  let root ← (paths.flatMap Path.steps).foldlM addPicture (.folder [])
  let here := (Path.ofText (toString (← IO.currentDir))).names
  let after := Command.carryOut { root, here } arguments
  match wish, after.ending with
  | some (.run _ a), .status 0 => (a.output.bind Given.value?).forM (writeBack after.disk)
  | _, _ => pure ()
  (← IO.getStderr).putStr after.errors.toString
  (← IO.getStdout).putStr after.output.toString
  match after.ending with
  | .status code => return code.toUInt32
  | .unforeseen failure =>
    (← IO.getStderr).putStrLn (failure.plainText?.getD "javadeps: unforeseen failure").toString
    return 1
