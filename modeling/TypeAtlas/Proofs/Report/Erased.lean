import TypeAtlas.Proofs.Report.Sorted

namespace TypeAtlas

namespace ClassReport

/-- The report without the package that the file declares. -/
def erased (c : ClassReport) : ClassReport :=
  { c with declaredPackage := none }

end ClassReport

namespace PackageReport

mutual

/-- The report without the packages that the files declare. -/
def erased : PackageReport → PackageReport
  | .mk name classes subpackages =>
    .mk name (classes.map ClassReport.erased) (erasedAll subpackages)

def erasedAll : List PackageReport → List PackageReport
  | [] => []
  | p :: ps => erased p :: erasedAll ps

end

theorem erasedAll_eq (ps : List PackageReport) : erasedAll ps = ps.map erased := by
  induction ps with
  | nil => rw [erasedAll, List.map_nil]
  | cons p ps ih => rw [erasedAll, ih, List.map_cons]

/-- The reports are the same but for the packages that the files declare. -/
def SameErased (p q : PackageReport) : Prop :=
  p.erased.same q.erased = true

theorem sameErased_iff {p q : PackageReport} :
    SameErased p q ↔ p.packageName = q.packageName ∧
      (∀ c, c ∈ p.classes.map ClassReport.erased ↔ c ∈ q.classes.map ClassReport.erased) ∧
      Matched SameErased p.subpackages q.subpackages := by
  obtain ⟨name, classes, subpackages⟩ := p
  obtain ⟨name', classes', subpackages'⟩ := q
  rw [SameErased, same_iff]
  simp only [erased, erasedAll_eq, packageName, PackageReport.classes, PackageReport.subpackages,
    matched_map_iff]
  rfl

theorem sameErased_of_same {p q : PackageReport} (h : p.same q = true) : SameErased p q := by
  induction p using induction_subpackages generalizing q with
  | step p ih =>
    obtain ⟨hname, hclasses, hsubpackages⟩ := same_iff.mp h
    refine sameErased_iff.mpr ⟨hname, fun c => ?_, ?_⟩
    · simp only [List.mem_map, hclasses]
    · exact hsubpackages.imp fun s hs t _ hst => ih s hs hst

theorem SameErased.trans {p q r : PackageReport} (hpq : SameErased p q) (hqr : SameErased q r) :
    SameErased p r :=
  same_trans hpq hqr

/-- Packages are the same but for the declared packages if they are so in order. -/
theorem matched_sameErased_of_sorted {ps qs : List PackageReport}
    (h : Matched SameErased (sorted ps) (sorted qs)) : Matched SameErased ps qs :=
  matched_of_sorted (R := SameErased) (fun _ _ _ hpq => (sameErased_of_same hpq).trans)
    (fun _ _ _ hpq hqr => hpq.trans (sameErased_of_same hqr)) h

end PackageReport

namespace Report

/-- The report without the packages that the files declare. -/
def erased : Report → Report
  | .ofClass c => .ofClass c.erased
  | .ofPackage p => .ofPackage p.erased
  | .ofProject p =>
    .ofProject { projectName := p.projectName, packages := PackageReport.erasedAll p.packages }

end Report

end TypeAtlas
