import TypeAtlas.Analysis.Note
import TypeAtlas.Analysis.Reports
import TypeAtlas.Concurrency.Crew

namespace TypeAtlas

/-- The reports that a job of an analysis finds. -/
structure Finding where
  classes : List ClassReport := []
  packages : List PackageReport := []
  deriving Inhabited

namespace Finding

def merge (fs : List Finding) : Finding where
  classes := fs.flatMap classes
  packages := fs.flatMap packages

/-- The package of which these are the classes and subpackages. -/
def package (f : Finding) (name : Text) : PackageReport :=
  .mk name f.classes f.packages

/-- What has been found of a package with this report. -/
def ofPackage (r : PackageReport) : Finding where
  classes := r.classes
  packages := r.subpackages

end Finding

open Concurrency

abbrev AnalysisJob := Job Note Failure Finding

/-- An operation, the notes on it, and what to do after it. If it fails, so does the job. -/
def operation {α β : Type} (result : Except Failure α) (notes : α → List Note)
    (next : α → Job Note Failure β) : Job Note Failure β :=
  match result with
  | .ok a => .operation (notes a) (next a)
  | .error e => .operation [] (.fail e)

def ClassReport.notes (r : ClassReport) : List Note :=
  [.classDone r.className r.packageName r.dependencies.size]

/-- The analysis of a source file: one operation reads it, another parses it. -/
def classJob (d : Disk) (c : Settings) (path : Path) : AnalysisJob :=
  operation (d.readSource path) (fun _ => []) fun source =>
    operation (Disk.reportOnSource c path source) ClassReport.notes fun report =>
      .done { classes := [report] }

/-- Several jobs side by side, which find what all of them find. -/
def collect (jobs : List AnalysisJob) : AnalysisJob :=
  .join jobs fun fs => ([], .merge fs)

/-- The note on a folder of which this has been found. -/
def Finding.notes (f : Finding) (path : Path) : List Note :=
  [.packageDone path f.classes.length f.packages.length]

mutual

/-- The analysis of what is in a folder: an operation lists it, and then its source files and the
folders in it are analysed side by side. In the end `present` says how the finding is handed on. -/
def folderJob (d : Disk) (c : Settings) (present : Finding → Finding) (path : Path) :
    Node → AnalysisJob
  | .folder entries =>
    operation (d.listEntries c path entries) (·.linkedFolders.map (.skippedLink path))
      fun listing =>
        .join
          [collect (listing.sources.map fun name => classJob d c (path.child name)),
            collect (subfolderJobs d c path entries)]
          fun fs => ((Finding.merge fs).notes path, present (.merge fs))
  | _ => .operation [] (.fail (.cannotList path .notAFolder))

/-- The analyses of the folders among the given entries, each of which finds a package. -/
def subfolderJobs (d : Disk) (c : Settings) (path : Path) :
    List (Text × Node) → List AnalysisJob
  | [] => []
  | (name, .folder below) :: entries =>
    folderJob d c (fun f => { packages := [f.package (d.baseName (path.child name))] })
        (path.child name) (.folder below) ::
      subfolderJobs d c path entries
  | _ :: entries => subfolderJobs d c path entries

end

/-- The analysis of what is in the folder at a path. -/
def packageJob (d : Disk) (c : Settings) (path : Path) : AnalysisJob :=
  match d.openFolder path with
  | .ok entries => folderJob d c id path (.folder entries)
  | .error e => .operation [] (.fail (.cannotList path e))

/-- What is to be done from the entry point of a project on. An operation finds the folder of all
sources, and another the entry point in it. -/
def fromEntryPoint {α : Type} (d : Disk) (c : Settings) (project : Path)
    (next : Path → Job Note Failure α) : Job Note Failure α :=
  operation (d.findSources c project) (fun _ => []) fun root =>
    operation (d.findStart c root) (fun entry => [.entryPoint project entry]) next

/-- The search for the entry point of a project. -/
def entryPointJob (d : Disk) (c : Settings) (project : Path) : Job Note Failure Path :=
  fromEntryPoint d c project .done

/-- The analysis of a project: of the package at its entry point. -/
def projectJob (d : Disk) (c : Settings) (project : Path) : AnalysisJob :=
  fromEntryPoint d c project (packageJob d c)

/-- The most operations at one time. -/
def Settings.slotCount (c : Settings) : Option Nat :=
  c.maxConcurrency.map Int.toNat

/-- A crew of one who is to do a job. -/
def crewFor {α : Type} (c : Settings) (j : Job Note Failure α) : Crew Note Failure α :=
  .start j c.slotCount c.cancelOnFailure

end TypeAtlas
