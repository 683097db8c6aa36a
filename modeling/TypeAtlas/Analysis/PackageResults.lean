import TypeAtlas.Analysis.Basic
import TypeAtlas.Analysis.JobResults
import TypeAtlas.Concurrency.RoundResults

namespace TypeAtlas

open Concurrency

theorem outcome_ofJob_bind {α : Type} (c : Settings) (j : AnalysisJob) (f : Finding → α) :
    (Analysis.ofJob c j >>= fun found => pure (f found)).outcome.1 =
      (j.run (Analysis.lossNotes c)).2.map f := by
  rcases h : j.run (Analysis.lossNotes c) with ⟨notes, r⟩
  rw [Analysis.ofJob, h]
  cases r <;> rfl

theorem packageName_of_reportOnPackage {d : Disk} {c : Settings} {path : Path} {r : PackageReport}
    (h : d.reportOnPackage c path = .ok r) : r.packageName = d.baseName path := by
  rw [Disk.reportOnPackage] at h
  cases ho : d.openFolder path with
  | error e =>
    rw [ho] at h
    cases h
  | ok entries =>
    rw [ho] at h
    exact packageName_of_reportOnFolder h

/-- The package that an analysis reports is the one that is reported when everything is done in
order. -/
theorem sameValue_analyzePackage (d : Disk) (c : Settings) (path : Path) :
    Job.SameValue (analyzePackage d c path).outcome.1 (d.reportOnPackage c path) := by
  have h := Job.result_run (Analysis.lossNotes c) (packageJob d c path)
  rw [result_packageJob] at h
  rw [analyzePackage, outcome_ofJob_bind]
  cases hrun : ((packageJob d c path).run (Analysis.lossNotes c)).2 with
  | error e =>
    cases hreport : d.reportOnPackage c path with
    | error e' => rfl
    | ok r => simp [Job.SameValue, hrun, hreport, Except.map, Except.toOption] at h
  | ok found =>
    cases hreport : d.reportOnPackage c path with
    | error e' => simp [Job.SameValue, hrun, hreport, Except.map, Except.toOption] at h
    | ok r =>
      simp only [Job.SameValue, hrun, hreport, Except.map, Except.toOption,
        Option.some.injEq] at h ⊢
      rw [h, ← packageName_of_reportOnPackage hreport, package_ofPackage]

theorem outcome_analyzePackage_eq_ok_iff {d : Disk} {c : Settings} {path : Path}
    {r : PackageReport} :
    (analyzePackage d c path).outcome.1 = .ok r ↔ d.reportOnPackage c path = .ok r := by
  have hsame := sameValue_analyzePackage d c path
  generalize (analyzePackage d c path).outcome.1 = found at hsame
  generalize d.reportOnPackage c path = report at hsame
  cases found <;> cases report <;> simp_all [Job.SameValue, Except.toOption]

/-- The entry point that is found is the one that the job of the search comes to. -/
theorem outcome_findEntryPoint (d : Disk) (c : Settings) (project : Path) :
    (findEntryPoint d c project).outcome.1 = (entryPointJob d c project).result := by
  rw [entryPointJob, result_fromEntryPoint, findEntryPoint]
  cases d.findSources c project with
  | error e => rfl
  | ok root =>
    change (Analysis.outcome (do
      let entry ← d.findStart c root
      .note (.entryPoint project entry)
      return entry)).1 = (d.findStart c root).bind .ok
    cases d.findStart c root <;> rfl

end TypeAtlas
