import TypeAtlas.Analysis.Folder
import TypeAtlas.Failure
import TypeAtlas.Report.Basic

namespace TypeAtlas

/-- The report on a source file with the given dependencies. -/
def ClassReport.ofDependencies (c : Settings) (path : Path) (deps : Java.Dependencies) :
    ClassReport where
  className := withoutExtension c.sourceExtension path.name
  packageName := (deps.declaredPackage.filter (· ≠ [])).getD c.defaultPackage
  declaredPackage := deps.declaredPackage
  dependencies := deps.names

namespace Disk

/-- The text of a source file. -/
def readSource (d : Disk) (path : Path) : Except Failure Text :=
  ((d.contents path).mapError (.cannotRead path)).map Text.ofBytes

/-- The report on a source file with the given text. -/
def reportOnSource (c : Settings) (path : Path) (source : Text) : Except Failure ClassReport :=
  ((Java.extract c.implicitPrefix source).mapError (.badSource path)).map
    (.ofDependencies c path)

/-- The report on a source file. -/
def reportOnClass (d : Disk) (c : Settings) (path : Path) : Except Failure ClassReport := do
  reportOnSource c path (← d.readSource path)

/-- The listing of the folder at a path, which has the given entries. -/
def listEntries (d : Disk) (c : Settings) (path : Path) (entries : List (Text × Node)) :
    Except Failure Listing :=
  (do checkPath path; d.listing path c.sourceExtension entries).mapError (.cannotList path)

def reportOnClasses (d : Disk) (c : Settings) (folder : Path) :
    List Text → Except Failure (List ClassReport)
  | [] => return []
  | name :: names => do
    let report ← d.reportOnClass c (folder.child name)
    return report :: (← d.reportOnClasses c folder names)

mutual

/-- The report on a folder: on its source files, and then on the folders in it, one by one. -/
def reportOnFolder (d : Disk) (c : Settings) (path : Path) : Node → Except Failure PackageReport
  | .folder entries => do
    let listing ← d.listEntries c path entries
    let classes ← d.reportOnClasses c path listing.sources
    let subpackages ← d.reportOnSubfolders c path entries
    return .mk (d.baseName path) classes subpackages
  | _ => throw (.cannotList path .notAFolder)

/-- The reports on the folders among the given entries, which links are not. -/
def reportOnSubfolders (d : Disk) (c : Settings) (path : Path) :
    List (Text × Node) → Except Failure (List PackageReport)
  | [] => return []
  | (name, .folder below) :: entries => do
    let report ← d.reportOnFolder c (path.child name) (.folder below)
    return report :: (← d.reportOnSubfolders c path entries)
  | _ :: entries => d.reportOnSubfolders c path entries

end

/-- The report on the folder at a path with all that is below it. -/
def reportOnPackage (d : Disk) (c : Settings) (path : Path) : Except Failure PackageReport := do
  let entries ← (d.openFolder path).mapError (.cannotList path)
  d.reportOnFolder c path (.folder entries)

/-- The folder of all sources in a project. -/
def findSources (d : Disk) (c : Settings) (project : Path) : Except Failure Path := do
  match ← (d.childFolder? project c.sourceRootName).mapError (.cannotList project) with
  | some root => return root
  | none => throw (.folderNotFound project c.sourceRootName)

/-- The folder below that of all sources where an analysis starts: the first of its name. -/
def findStart (d : Disk) (c : Settings) (root : Path) : Except Failure Path := do
  match ← (d.search root c.entryPointName).mapError fun e => .cannotWalk e.path e.fault with
  | some entry => return entry
  | none => throw (.folderNotFound root c.entryPointName)

end Disk

end TypeAtlas
