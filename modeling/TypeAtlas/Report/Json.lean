import TypeAtlas.Json.Writer
import TypeAtlas.Report.Contents

namespace TypeAtlas

/-- The members of a list by their names. Members of one name keep their order. -/
def sortedBy {α : Type} (name : α → Text) (xs : List α) : List α :=
  xs.mergeSort fun a b => decide (¬ name b < name a)

namespace ClassReport

def json (r : ClassReport) : Json :=
  .object [("class_name", .text r.className), ("package_name", .text r.packageName),
    ("declared_package", r.declaredPackage.elim .null .text),
    ("dependencies", .array (r.dependencies.toList.map .text))]

end ClassReport

namespace PackageReport

/-- The classes in the order of their names. -/
def sortedClasses (p : PackageReport) : List ClassReport :=
  sortedBy ClassReport.className (distinctClasses p.classes)

/-- Packages in the order of their names. -/
def sorted (ps : List PackageReport) : List PackageReport :=
  sortedBy packageName (distinct ps)

theorem mem_sorted {p : PackageReport} {ps : List PackageReport} :
    p ∈ sorted ps ↔ p ∈ distinct ps :=
  List.mem_mergeSort

def json (p : PackageReport) : Json :=
  .object [("package_name", .text p.packageName),
    ("classes", .array (p.sortedClasses.map ClassReport.json)),
    ("subpackages", .array ((sorted p.subpackages).attach.map fun ⟨q, h⟩ =>
      have := sizeOf_lt_of_mem_subpackages (mem_sorted.mp h)
      json q))]
termination_by sizeOf p

end PackageReport

namespace ProjectReport

def json (p : ProjectReport) : Json :=
  .object [("project_name", .text p.projectName),
    ("packages", .array ((PackageReport.sorted p.packages).map PackageReport.json))]

end ProjectReport

namespace Report

/-- A report as a JSON value. Sets are listed in order, by code point. -/
def json : Report → Json
  | .ofClass r => r.json
  | .ofPackage r => r.json
  | .ofProject r => r.json

def jsonText (r : Report) : String :=
  r.json.indented

end Report

end TypeAtlas
