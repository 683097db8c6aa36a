import TypeAtlas.Report.Json

namespace TypeAtlas

/-- A line of an outline, `depth` steps from the margin. -/
def outlineLine (depth : Nat) (s : Text) : Text :=
  List.replicate (2 * depth) ' '.toNat ++ s

namespace ClassReport

/-- A class and below it what it depends on. -/
def outline (depth : Nat) (r : ClassReport) : List Text :=
  outlineLine depth (r.className ++ " (" ++ r.packageName ++ ")") ::
    r.dependencies.toList.map fun name => outlineLine (depth + 1) ("-> " ++ name)

end ClassReport

namespace PackageReport

/-- A package in brackets, and below it its classes and then its subpackages. -/
def outline (depth : Nat) (p : PackageReport) : List Text :=
  outlineLine depth ("[" ++ p.packageName ++ "]") ::
    p.sortedClasses.flatMap (ClassReport.outline (depth + 1)) ++
      (sorted p.subpackages).attach.flatMap fun ⟨q, h⟩ =>
        have := sizeOf_lt_of_mem_subpackages (mem_sorted.mp h)
        outline (depth + 1) q
termination_by sizeOf p

end PackageReport

namespace ProjectReport

/-- A project with its number of classes, and below it its packages. -/
def outline (p : ProjectReport) : List Text :=
  (p.projectName ++ " (" ++ toString p.classCount ++ " classes)") ::
    (PackageReport.sorted p.packages).flatMap (PackageReport.outline 1)

end ProjectReport

namespace Report

def outline : Report → List Text
  | .ofClass r => r.outline 0
  | .ofPackage r => r.outline 0
  | .ofProject r => r.outline

/-- A report as an indented tree. -/
def plainText (r : Report) : Text :=
  Text.join "\n" r.outline

end Report

end TypeAtlas
