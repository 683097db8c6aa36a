import Mathlib.Algebra.Ring.Nat
import Mathlib.Data.List.Nodup
import TypeAtlas.Report.Contents

namespace TypeAtlas.PackageReport

theorem packageName_eq_of_same {p q : PackageReport} (h : p.same q = true) :
    p.packageName = q.packageName := by
  obtain ⟨name, classes, subpackages⟩ := p
  simp only [same, Bool.and_eq_true, decide_eq_true_eq] at h
  exact h.1.1

/-- Where no class is listed twice, all of them are distinct. -/
theorem distinctClasses_of_nodup {cs : List ClassReport} (h : cs.Nodup) :
    distinctClasses cs = cs := by
  induction cs with
  | nil => rfl
  | cons c cs ih =>
    obtain ⟨hc, hcs⟩ := List.nodup_cons.mp h
    rw [distinctClasses, ih hcs, List.filter_eq_self.mpr]
    intro k hk
    have hne : k ≠ c := fun heq => hc (heq ▸ hk)
    simpa using hne

/-- Where no two packages have the same name, all of them are distinct. -/
theorem distinct_of_nodup {ps : List PackageReport} (h : (ps.map packageName).Nodup) :
    distinct ps = ps := by
  induction ps with
  | nil => rfl
  | cons p ps ih =>
    rw [List.map_cons, List.nodup_cons] at h
    rw [distinct, ih h.2, List.filter_eq_self.mpr]
    intro q hq
    have hnot : ¬ p.same q = true := fun hsame =>
      h.1 (List.mem_map.mpr ⟨q, hq, (packageName_eq_of_same hsame).symm⟩)
    simpa using hnot

theorem classCount_eq (p : PackageReport) :
    p.classCount = (distinctClasses p.classes).length +
      ((distinct p.subpackages).map classCount).sum := by
  rw [classCount, allClasses, List.length_append, List.length_flatMap]
  have hcounts : (fun q : PackageReport => q.allClasses.length) = classCount := rfl
  simp [hcounts]

/-- `At r place q` says that `q` is the report on the package that is reached from `r` by the
names of `place`. -/
inductive At : PackageReport → List Text → PackageReport → Prop
  | here {r : PackageReport} : At r [] r
  | inside {r s q : PackageReport} {rest : List Text} :
      s ∈ r.subpackages → At s rest q → At r (s.packageName :: rest) q

end TypeAtlas.PackageReport
