import TypeAtlas.Analysis.Jobs
import TypeAtlas.Concurrency.Rounds

namespace TypeAtlas

/-- A step of an analysis: it may fail, and it takes notes all the same. -/
abbrev Analysis := ExceptT Failure (StateM (List Note))

namespace Analysis

def takeNotes (ns : List Note) : Analysis Unit :=
  modify (· ++ ns)

def note (n : Note) : Analysis Unit :=
  takeNotes [n]

/-- The outcome of an analysis, and its notes. -/
def outcome {α : Type} (a : Analysis α) : Except Failure α × List Note :=
  StateT.run (ExceptT.run a) []

/-- The note on jobs that are told to give up. -/
def lossNotes (c : Settings) (count : Nat) : List Note :=
  if c.cancelOnFailure ∧ count ≠ 0 then [.calledOff count] else []

/-- Does a job. -/
def ofJob (c : Settings) (j : AnalysisJob) : Analysis Finding := do
  let (notes, result) := j.run (lossNotes c)
  takeNotes notes
  result

end Analysis

/-- Reads and analyses one source file. -/
def analyzeClass (d : Disk) (c : Settings) (path : Path) : Analysis ClassReport := do
  let report ← d.reportOnClass c path
  .takeNotes report.notes
  return report

/-- Analyses the folder at a path with all that is below it, as many things as possible side by
side. -/
def analyzePackage (d : Disk) (c : Settings) (path : Path) : Analysis PackageReport := do
  let found ← .ofJob c (packageJob d c path)
  return found.package (d.baseName path)

/-- The folder in a project where its analysis starts. -/
def findEntryPoint (d : Disk) (c : Settings) (project : Path) : Analysis Path := do
  let entry ← d.findStart c (← d.findSources c project)
  .note (.entryPoint project entry)
  return entry

/-- Analyses a project from its entry point on. -/
def analyzeProject (d : Disk) (c : Settings) (project : Path) : Analysis ProjectReport := do
  let entry ← findEntryPoint d c project
  let root ← analyzePackage d c entry
  return { projectName := d.baseName project, packages := [root] }

end TypeAtlas
