import TypeAtlas.Analysis.PackageResults
import TypeAtlas.Proofs.Analysis.DistinctNames
import TypeAtlas.Proofs.Crew.Outcomes

namespace TypeAtlas

open Concurrency

namespace Disk

/-- What can go wrong with one source file: it cannot be read, or nothing is extracted from it. -/
inductive ClassFails (d : Disk) (c : Settings) (path : Path) : Failure → Prop
  | reading {e : Failure} : d.readSource path = .error e → ClassFails d c path e
  | extraction {source : Text} {e : Failure} :
      d.readSource path = .ok source → reportOnSource c path source = .error e →
        ClassFails d c path e

/-- What can go wrong in and below the folder at a path, which has the given entries: it cannot be
listed, something goes wrong with one of the source files listed, or in a folder in it. -/
inductive FolderFails (d : Disk) (c : Settings) : Path → List (Text × Node) → Failure → Prop
  | listing {path : Path} {entries : List (Text × Node)} {e : Failure} :
      d.listEntries c path entries = .error e → FolderFails d c path entries e
  | source {path : Path} {entries : List (Text × Node)} {listing : Listing} {name : Text}
      {e : Failure} :
      d.listEntries c path entries = .ok listing → name ∈ listing.sources →
        d.ClassFails c (path.child name) e → FolderFails d c path entries e
  | folder {path : Path} {entries below : List (Text × Node)} {listing : Listing} {name : Text}
      {e : Failure} :
      d.listEntries c path entries = .ok listing → (name, .folder below) ∈ entries →
        FolderFails d c (path.child name) below e → FolderFails d c path entries e

/-- What can go wrong with the package at a path. -/
inductive PackageFails (d : Disk) (c : Settings) (path : Path) : Failure → Prop
  | opening {fault : FileFault} :
      d.openFolder path = .error fault → PackageFails d c path (.cannotList path fault)
  | inside {entries : List (Text × Node)} {e : Failure} :
      d.openFolder path = .ok entries → d.FolderFails c path entries e → PackageFails d c path e

end Disk

theorem fails_operation_iff {α β : Type} {r : Except Failure α} {notes : α → List Note}
    {next : α → Job Note Failure β} {e : Failure} :
    (operation r notes next).Fails e ↔ r = .error e ∨ ∃ a, r = .ok a ∧ (next a).Fails e := by
  cases r with
  | error e' =>
    constructor
    · rintro (_ | ⟨⟨⟩⟩)
      exact .inl rfl
    · rintro (h | ⟨a, h, _⟩)
      · cases h
        exact .operation .fail
      · cases h
  | ok a =>
    constructor
    · rintro (_ | ⟨h⟩)
      exact .inr ⟨a, rfl, h⟩
    · rintro (h | ⟨a', h, hnext⟩)
      · cases h
      · cases h
        exact .operation hnext

theorem fails_join_iff {parts : List AnalysisJob}
    {combine : List Finding → List Note × Finding} {e : Failure} :
    (Job.join parts combine).Fails e ↔ ∃ j ∈ parts, j.Fails e := by
  constructor
  · rintro (_ | _ | ⟨hj, hfails⟩)
    exact ⟨_, hj, hfails⟩
  · rintro ⟨j, hj, hfails⟩
    exact .part hj hfails

theorem fails_classJob_iff {d : Disk} {c : Settings} {path : Path} {e : Failure} :
    (classJob d c path).Fails e ↔ d.ClassFails c path e := by
  rw [classJob, fails_operation_iff]
  constructor
  · rintro (h | ⟨source, hread, hnext⟩)
    · exact .reading h
    · rcases fails_operation_iff.mp hnext with h | ⟨report, _, ⟨⟩⟩
      exact .extraction hread h
  · rintro (h | ⟨hread, h⟩)
    · exact .inl h
    · exact .inr ⟨_, hread, fails_operation_iff.mpr (.inl h)⟩

mutual

theorem fails_folderJob_iff (d : Disk) (c : Settings) (present : Finding → Finding) (path : Path)
    (entries : List (Text × Node)) (e : Failure) :
    (folderJob d c present path (.folder entries)).Fails e ↔ d.FolderFails c path entries e := by
  rw [folderJob, fails_operation_iff]
  simp only [fails_join_iff, List.mem_cons, List.not_mem_nil, or_false, exists_eq_or_imp,
    exists_eq_left, collect, List.mem_map, exists_exists_and_eq_and, fails_classJob_iff,
    exists_fails_subfolderJobs_iff d c path entries e]
  constructor
  · rintro (h | ⟨listing, hlist, ⟨name, hname, h⟩ | ⟨name, below, hmem, h⟩⟩)
    · exact .listing h
    · exact .source hlist hname h
    · exact .folder hlist hmem h
  · rintro (h | ⟨hlist, hname, h⟩ | ⟨hlist, hmem, h⟩)
    · exact .inl h
    · exact .inr ⟨_, hlist, .inl ⟨_, hname, h⟩⟩
    · exact .inr ⟨_, hlist, .inr ⟨_, _, hmem, h⟩⟩

theorem exists_fails_subfolderJobs_iff (d : Disk) (c : Settings) (path : Path)
    (entries : List (Text × Node)) (e : Failure) :
    (∃ j ∈ subfolderJobs d c path entries, j.Fails e) ↔
      ∃ name below, (name, .folder below) ∈ entries ∧
        d.FolderFails c (path.child name) below e := by
  match entries with
  | [] => simp [subfolderJobs]
  | (name, .folder below) :: entries =>
    rw [subfolderJobs]
    simp only [List.mem_cons, exists_eq_or_imp, fails_folderJob_iff d c _ (path.child name) below e,
      exists_fails_subfolderJobs_iff d c path entries e]
    constructor
    · rintro (h | ⟨other, rest, hmem, h⟩)
      · exact ⟨name, below, .inl rfl, h⟩
      · exact ⟨other, rest, .inr hmem, h⟩
    · rintro ⟨other, rest, heq | hmem, h⟩
      · cases heq
        exact .inl h
      · exact .inr ⟨other, rest, hmem, h⟩
  | (name, .file bytes) :: entries =>
    rw [subfolderJobs]
    · simpa using exists_fails_subfolderJobs_iff d c path entries e
    · simp
  | (name, .link target) :: entries =>
    rw [subfolderJobs]
    · simpa using exists_fails_subfolderJobs_iff d c path entries e
    · simp

end

/-- The failures that can come up in the job of a package are those of its listings, readings and
extractions. -/
theorem fails_packageJob_iff {d : Disk} {c : Settings} {path : Path} {e : Failure} :
    (packageJob d c path).Fails e ↔ d.PackageFails c path e := by
  rw [packageJob]
  cases hopen : d.openFolder path with
  | error fault =>
    constructor
    · rintro (_ | ⟨⟨⟩⟩)
      exact .opening hopen
    · rintro (h | ⟨h, _⟩)
      · cases hopen.symm.trans h
        exact .operation .fail
      · cases hopen.symm.trans h
  | ok entries =>
    simp only [fails_folderJob_iff]
    constructor
    · exact fun h => .inside hopen h
    · rintro (h | ⟨h, hfails⟩)
      · cases hopen.symm.trans h
      · cases hopen.symm.trans h
        exact hfails

/-- In whatever order the work on a package is done, and whoever has to wait for a slot: if nobody
calls it off from outside, it ends with the report that is made when everything is done in order,
and then nothing in it can fail, or else with the very failure of one of its listings, readings and
extractions. -/
theorem outcome_packageJob_run (d : Disk) (c : Config) (path : Path) (schedule : List Address) :
    let crew := (crewFor c.toSettings (packageJob d c.toSettings path)).run schedule
    crew.root.outcome? = none ∨
      (∃ found report, crew.root.outcome? = some (.value found) ∧
        found.package (d.baseName path) = report ∧
        d.reportOnPackage c.toSettings path = .ok report ∧
        ∀ e, ¬ d.PackageFails c.toSettings path e) ∨
      ∃ e, crew.root.outcome? = some (.failure e) ∧ d.PackageFails c.toSettings path e := by
  intro crew
  cases ho : crew.root.outcome? with
  | none => exact .inl rfl
  | some o =>
    obtain ⟨found, rfl, hresult⟩ | ⟨e, rfl, hfails⟩ := Crew.outcome_run ho
    · have hfree := Job.not_fails_of_result hresult
      rw [result_packageJob] at hresult
      cases hreport : d.reportOnPackage c.toSettings path with
      | error e => simp [hreport, Except.map] at hresult
      | ok report =>
        have hfound : Finding.ofPackage report = found := by
          simpa [hreport, Except.map] using hresult
        have hname := packageName_of_reportOnPackage hreport
        refine .inr (.inl ⟨found, report, rfl, ?_, rfl, fun e he => ?_⟩)
        · rw [← hfound, ← hname, package_ofPackage]
        · exact hfree e (fails_packageJob_iff.mpr he)
    · exact .inr (.inr ⟨e, rfl, fails_packageJob_iff.mp hfails⟩)

/-- Likewise for the work on a project: it ends with what the analysis of the project reports of the
package at its entry point, or else with a failure, and then no analysis reports anything. -/
theorem outcome_projectJob_run (d : Disk) (c : Settings) (project : Path)
    (schedule : List Address) :
    let crew := (crewFor c (projectJob d c project)).run schedule
    crew.root.outcome? = none ∨
      (∃ entry found, crew.root.outcome? = some (.value found) ∧
        (findEntryPoint d c project).outcome.1 = .ok entry ∧
        (analyzeProject d c project).outcome.1 =
          .ok { projectName := d.baseName project,
                packages := [found.package (d.baseName entry)] }) ∨
      ∃ e, crew.root.outcome? = some (.failure e) ∧ (projectJob d c project).Fails e ∧
        ∀ r, (analyzeProject d c project).outcome.1 ≠ .ok r := by
  intro crew
  cases ho : crew.root.outcome? with
  | none => exact .inl rfl
  | some o =>
    obtain ⟨found, rfl, hresult⟩ | ⟨e, rfl, hfails⟩ := Crew.outcome_run ho
    · obtain ⟨entry, hentry, _⟩ :=
        bind_eq_ok_iff.mp ((result_projectJob d c project).symm.trans hresult)
      rw [← outcome_findEntryPoint] at hentry
      exact .inr (.inl ⟨entry, found, rfl, hentry,
        outcome_analyzeProject_eq_ok_iff.mpr ⟨entry, found, hentry, hresult, rfl⟩⟩)
    · refine .inr (.inr ⟨e, rfl, hfails, fun r hr => ?_⟩)
      obtain ⟨_, _, _, hresult, _⟩ := outcome_analyzeProject_eq_ok_iff.mp hr
      exact Job.not_fails_of_result hresult e hfails

end TypeAtlas
