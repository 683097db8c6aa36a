import Mathlib.Logic.Relation
import TypeAtlas.Proofs.Report.Same

namespace TypeAtlas

/-- A class report with its dependencies as they are enumerated, in any order and with any
repetitions. -/
structure ClassPresentation where
  className : Text
  packageName : Text
  declaredPackage : Option Text
  dependencies : List Text

namespace ClassPresentation

def report (c : ClassPresentation) : ClassReport :=
  { className := c.className, packageName := c.packageName, declaredPackage := c.declaredPackage,
    dependencies := .ofList c.dependencies }

/-- The dependencies are permuted or repeated. -/
inductive Reorders : ClassPresentation → ClassPresentation → Prop
  | dependencies {c : ClassPresentation} {names : List Text} :
      (∀ n, n ∈ c.dependencies ↔ n ∈ names) → Reorders c { c with dependencies := names }

theorem Reorders.report_eq {c d : ClassPresentation} (h : c.Reorders d) : c.report = d.report := by
  obtain ⟨hnames⟩ := h
  have hset : NameSet.ofList c.dependencies = NameSet.ofList _ :=
    NameSet.ext fun n => by simpa using hnames n
  rw [report, report, hset]

end ClassPresentation

/-- A package report with all its sets as they are enumerated. -/
inductive PackagePresentation
  | mk (packageName : Text) (classes : List ClassPresentation)
      (subpackages : List PackagePresentation)

namespace PackagePresentation

mutual

def report : PackagePresentation → PackageReport
  | .mk name classes subpackages =>
    .mk name (classes.map ClassPresentation.report) (reports subpackages)

def reports : List PackagePresentation → List PackageReport
  | [] => []
  | p :: ps => report p :: reports ps

end

theorem reports_eq (ps : List PackagePresentation) : reports ps = ps.map report := by
  induction ps with
  | nil => rw [reports, List.map_nil]
  | cons p ps ih => rw [reports, ih, List.map_cons]

/-- In one place of a package the members of a set are permuted or repeated. -/
inductive Reorders : PackagePresentation → PackagePresentation → Prop
  | classes {name : Text} {cs ds : List ClassPresentation} {ps : List PackagePresentation} :
      (∀ c, c ∈ cs ↔ c ∈ ds) → Reorders (.mk name cs ps) (.mk name ds ps)
  | inClass {name : Text} {before after : List ClassPresentation} {c d : ClassPresentation}
      {ps : List PackagePresentation} :
      c.Reorders d →
        Reorders (.mk name (before ++ c :: after) ps) (.mk name (before ++ d :: after) ps)
  | subpackages {name : Text} {cs : List ClassPresentation} {ps qs : List PackagePresentation} :
      (∀ p, p ∈ ps ↔ p ∈ qs) → Reorders (.mk name cs ps) (.mk name cs qs)
  | inSubpackage {name : Text} {cs : List ClassPresentation}
      {before after : List PackagePresentation} {p q : PackagePresentation} :
      Reorders p q →
        Reorders (.mk name cs (before ++ p :: after)) (.mk name cs (before ++ q :: after))

/-- Packages that are matched as presentations are matched as reports. -/
theorem matched_reports {ps qs : List PackagePresentation}
    (h : Matched (fun p q => p.report.same q.report = true) ps qs) :
    Matched (fun p q => p.same q = true) (reports ps) (reports qs) := by
  rw [reports_eq, reports_eq]
  exact matched_map_iff.mpr h

/-- Enumerating a set in another way presents the same report. -/
theorem Reorders.same {p q : PackagePresentation} (h : p.Reorders q) :
    p.report.same q.report = true := by
  have hself : ∀ s : PackagePresentation, s.report.same s.report = true :=
    fun s => s.report.same_refl
  induction h with
  | classes hmem =>
    refine PackageReport.same_iff.mpr ⟨rfl, fun c => ?_, matched_refl fun s _ => s.same_refl⟩
    simp only [report, PackageReport.classes, List.mem_map, hmem]
  | inClass hclass =>
    simp only [report, List.map_append, List.map_cons, hclass.report_eq]
    exact PackageReport.same_refl _
  | @subpackages name cs ps qs hmem =>
    have hmatched : Matched (fun p q => p.report.same q.report = true) ps qs :=
      matched_of_mem_iff hself hmem
    exact PackageReport.same_iff.mpr ⟨rfl, fun _ => Iff.rfl, matched_reports hmatched⟩
  | @inSubpackage name cs before after p q _ ih =>
    have hmatched : Matched (fun p q => p.report.same q.report = true)
        (before ++ p :: after) (before ++ q :: after) := by
      refine matched_splice hself ?_ before after
      exact ih
    exact PackageReport.same_iff.mpr ⟨rfl, fun _ => Iff.rfl, matched_reports hmatched⟩

end PackagePresentation

/-- A report of any kind with all its sets as they are enumerated. -/
inductive Presentation
  | ofClass (c : ClassPresentation)
  | ofPackage (p : PackagePresentation)
  | ofProject (name : Text) (packages : List PackagePresentation)

namespace Presentation

def report : Presentation → Report
  | .ofClass c => .ofClass c.report
  | .ofPackage p => .ofPackage p.report
  | .ofProject name packages =>
    .ofProject { projectName := name, packages := PackagePresentation.reports packages }

/-- In one place the members of a set are permuted or repeated. -/
inductive Reorders : Presentation → Presentation → Prop
  | ofClass {c d : ClassPresentation} : c.Reorders d → Reorders (.ofClass c) (.ofClass d)
  | ofPackage {p q : PackagePresentation} : p.Reorders q → Reorders (.ofPackage p) (.ofPackage q)
  | packages {name : Text} {ps qs : List PackagePresentation} :
      (∀ p, p ∈ ps ↔ p ∈ qs) → Reorders (.ofProject name ps) (.ofProject name qs)
  | inPackage {name : Text} {before after : List PackagePresentation} {p q : PackagePresentation} :
      p.Reorders q →
        Reorders (.ofProject name (before ++ p :: after)) (.ofProject name (before ++ q :: after))

/-- The presentations differ by permuting and repeating the members of sets, in any number of
places. -/
def Rearranges : Presentation → Presentation → Prop :=
  Relation.ReflTransGen Reorders

theorem Reorders.same {a b : Presentation} (h : a.Reorders b) : a.report.same b.report = true := by
  have hself : ∀ p : PackagePresentation, p.report.same p.report = true :=
    fun p => p.report.same_refl
  cases h with
  | ofClass hclass => simp [report, Report.same, hclass.report_eq]
  | ofPackage hpackage => exact hpackage.same
  | @packages name ps qs hmem =>
    have hmatched : Matched (fun p q => p.report.same q.report = true) ps qs :=
      matched_of_mem_iff hself hmem
    exact Report.same_ofProject_iff.mpr ⟨rfl, PackagePresentation.matched_reports hmatched⟩
  | @inPackage name before after p q hpackage =>
    have hmatched : Matched (fun p q => p.report.same q.report = true)
        (before ++ p :: after) (before ++ q :: after) := by
      refine matched_splice hself ?_ before after
      exact hpackage.same
    exact Report.same_ofProject_iff.mpr ⟨rfl, PackagePresentation.matched_reports hmatched⟩

/-- All ways to enumerate a report present the same one. -/
theorem Rearranges.same {a b : Presentation} (h : a.Rearranges b) :
    a.report.same b.report = true := by
  induction h with
  | refl => exact Report.same_refl _
  | tail _ hstep ih => exact Report.same_trans ih hstep.same

end Presentation

end TypeAtlas
