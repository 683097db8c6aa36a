import TypeAtlas.Report.Basic

namespace TypeAtlas

namespace PackageReport

/-- One of each of the classes, the first where there are several. -/
def distinctClasses : List ClassReport → List ClassReport
  | [] => []
  | c :: cs => c :: (distinctClasses cs).filter (· ≠ c)

/-- One of each of the packages, the first where there are several. -/
def distinct : List PackageReport → List PackageReport
  | [] => []
  | p :: ps => p :: (distinct ps).filter fun q => !p.same q

theorem sizeOf_lt_of_mem_distinct {p : PackageReport} {ps : List PackageReport}
    (h : p ∈ distinct ps) : sizeOf p < sizeOf ps := by
  induction ps with
  | nil => simp [distinct] at h
  | cons q qs ih =>
    simp only [distinct, List.mem_cons, List.mem_filter] at h
    rcases h with rfl | ⟨h, _⟩
    · simp
      omega
    · have := ih h
      simp
      omega

theorem sizeOf_lt_of_mem_subpackages {p q : PackageReport} (h : q ∈ distinct p.subpackages) :
    sizeOf q < sizeOf p := by
  have := sizeOf_lt_of_mem_distinct h
  cases p with
  | mk name classes subpackages =>
    simp only [PackageReport.subpackages] at this
    simp
    omega

/-- The classes of a package and of all packages in it. -/
def allClasses (p : PackageReport) : List ClassReport :=
  distinctClasses p.classes ++
    (distinct p.subpackages).attach.flatMap fun ⟨q, h⟩ =>
      have := sizeOf_lt_of_mem_subpackages h
      allClasses q
termination_by sizeOf p

def classCount (p : PackageReport) : Nat :=
  p.allClasses.length

def findSubpackage? (p : PackageReport) (name : Text) : Option PackageReport :=
  p.subpackages.find? (·.packageName = name)

end PackageReport

namespace ProjectReport

def classCount (p : ProjectReport) : Nat :=
  (PackageReport.distinct p.packages).foldl (fun n q => n + q.classCount) 0

def rootPackage? (p : ProjectReport) : Option PackageReport :=
  p.packages.head?

end ProjectReport

end TypeAtlas
