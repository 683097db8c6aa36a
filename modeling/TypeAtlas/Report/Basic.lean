import TypeAtlas.NameSet

namespace TypeAtlas

/-- What one source file depends on. The package of a file that declares none is the default one. -/
structure ClassReport where
  className : Text
  packageName : Text
  declaredPackage : Option Text
  dependencies : NameSet
  deriving DecidableEq, Inhabited

/-- A folder with the reports on its source files and its subfolders. The two lists present sets:
neither order nor repetition counts, which is what `same` says. -/
inductive PackageReport
  | mk (packageName : Text) (classes : List ClassReport) (subpackages : List PackageReport)
  deriving Inhabited

namespace PackageReport

def packageName : PackageReport → Text
  | .mk name _ _ => name

def classes : PackageReport → List ClassReport
  | .mk _ classes _ => classes

def subpackages : PackageReport → List PackageReport
  | .mk _ _ subpackages => subpackages

/-- Either list has all members of the other. -/
def sameClasses (xs ys : List ClassReport) : Bool :=
  xs.all ys.contains && ys.all xs.contains

/-- Each row and each of the columns of a table holds a `true`. -/
def isTotal (columns : Nat) (rows : List (List Bool)) : Bool :=
  rows.all (·.any id) &&
    (rows.foldl (List.zipWith (· || ·)) (List.replicate columns false)).all id

mutual

/-- The two reports have the same name, the same set of classes and the same set of subpackages. -/
def same : PackageReport → PackageReport → Bool
  | .mk name classes subpackages, q =>
    name = q.packageName && sameClasses classes q.classes &&
      isTotal q.subpackages.length (comparisons subpackages q.subpackages)

/-- The table of which of the first reports are the same as which of the others. -/
def comparisons : List PackageReport → List PackageReport → List (List Bool)
  | [], _ => []
  | p :: ps, qs => qs.map (same p) :: comparisons ps qs

end

/-- The two lists present the same set. -/
def sameSet (ps qs : List PackageReport) : Bool :=
  isTotal qs.length (comparisons ps qs)

end PackageReport

/-- A project with the packages where its analysis starts. -/
structure ProjectReport where
  projectName : Text
  packages : List PackageReport
  deriving Inhabited

namespace ProjectReport

def same (p q : ProjectReport) : Bool :=
  p.projectName = q.projectName && PackageReport.sameSet p.packages q.packages

end ProjectReport

inductive Report
  | ofClass (report : ClassReport)
  | ofPackage (report : PackageReport)
  | ofProject (report : ProjectReport)
  deriving Inhabited

namespace Report

/-- Reports of different kinds are never the same. -/
def same : Report → Report → Bool
  | .ofClass r, .ofClass s => r = s
  | .ofPackage r, .ofPackage s => r.same s
  | .ofProject r, .ofProject s => r.same s
  | _, _ => false

end Report

end TypeAtlas
