import TypeAtlas.Analysis.Jobs

namespace TypeAtlas

open Concurrency

theorem result_operation {α β : Type} (r : Except Failure α) (notes : α → List Note)
    (next : α → Job Note Failure β) :
    (operation r notes next).result = r >>= fun a => (next a).result := by
  cases r <;> simp [operation, Job.result, bind, Except.bind]

theorem result_collect (jobs : List AnalysisJob) :
    (collect jobs).result = (Job.results jobs).map Finding.merge := by
  simp [collect, Job.result]

theorem result_classJob (d : Disk) (c : Settings) (path : Path) :
    (classJob d c path).result =
      (d.reportOnClass c path).map fun r => { classes := [r] } := by
  simp only [classJob, result_operation, Job.result, Disk.reportOnClass, bind, Except.bind]
  cases d.readSource path with
  | error e => rfl
  | ok source => cases Disk.reportOnSource c path source <;> rfl

theorem results_classJobs (d : Disk) (c : Settings) (folder : Path) (names : List Text) :
    Job.results (names.map fun name => classJob d c (folder.child name)) =
      (d.reportOnClasses c folder names).map (·.map fun r => { classes := [r] }) := by
  induction names with
  | nil => rfl
  | cons name names ih =>
    simp only [List.map_cons, Job.results, Disk.reportOnClasses, result_classJob, ih, bind,
      Except.bind]
    cases d.reportOnClass c (folder.child name) with
    | error e => rfl
    | ok r => cases d.reportOnClasses c folder names <;> rfl

theorem merge_classes (rs : List ClassReport) :
    Finding.merge (rs.map fun r => { classes := [r] }) = { classes := rs } := by
  induction rs with
  | nil => rfl
  | cons r rs ih =>
    simp only [Finding.merge, Finding.mk.injEq] at ih
    simp [Finding.merge, ih]

theorem merge_packages (rs : List PackageReport) :
    Finding.merge (rs.map fun r => { packages := [r] }) = { packages := rs } := by
  induction rs with
  | nil => rfl
  | cons r rs ih =>
    simp only [Finding.merge, Finding.mk.injEq] at ih
    simp [Finding.merge, ih]

/-- All classes and all packages of a folder, found side by side, are what is in it. -/
theorem merge_pair (classes : List ClassReport) (packages : List PackageReport) :
    Finding.merge [{ classes }, { packages }] = { classes, packages } := by
  simp [Finding.merge]

theorem package_ofPackage (r : PackageReport) :
    (Finding.ofPackage r).package r.packageName = r := by
  cases r
  rfl

theorem except_map_map {ε α β γ : Type} (f : α → β) (g : β → γ) (r : Except ε α) :
    (r.map f).map g = r.map (g ∘ f) := by
  cases r <;> rfl

theorem packageName_of_reportOnFolder {d : Disk} {c : Settings} {path : Path} {n : Node}
    {r : PackageReport} (h : d.reportOnFolder c path n = .ok r) :
    r.packageName = d.baseName path := by
  cases n with
  | file bytes => cases h
  | link target => cases h
  | folder entries =>
    rw [Disk.reportOnFolder] at h
    cases hl : d.listEntries c path entries with
    | error e => simp [hl, bind, Except.bind] at h
    | ok listing =>
      cases hc : d.reportOnClasses c path listing.sources with
      | error e => simp [hl, hc, bind, Except.bind] at h
      | ok classes =>
        cases hs : d.reportOnSubfolders c path entries with
        | error e => simp [hl, hc, hs, bind, Except.bind] at h
        | ok packages =>
          simp only [hl, hc, hs, bind, Except.bind, pure, Except.pure, Except.ok.injEq] at h
          rw [← h]
          rfl

mutual

theorem result_folderJob (d : Disk) (c : Settings) (present : Finding → Finding) (path : Path)
    (n : Node) :
    (folderJob d c present path n).result =
      (d.reportOnFolder c path n).map fun r => present (.ofPackage r) := by
  cases n with
  | file bytes => rfl
  | link target => rfl
  | folder entries =>
    rw [folderJob, result_operation, Disk.reportOnFolder]
    cases d.listEntries c path entries with
    | error e => rfl
    | ok listing =>
      simp only [bind, Except.bind, Job.result, Job.results, result_collect, results_classJobs,
        results_subfolderJobs d c path entries, except_map_map]
      cases d.reportOnClasses c path listing.sources with
      | error e => rfl
      | ok classes =>
        cases d.reportOnSubfolders c path entries with
        | error e => rfl
        | ok packages =>
          simp only [Except.map, Function.comp, merge_classes, merge_packages, pure, Except.pure,
            merge_pair]
          rfl

theorem results_subfolderJobs (d : Disk) (c : Settings) (path : Path)
    (entries : List (Text × Node)) :
    Job.results (subfolderJobs d c path entries) =
      (d.reportOnSubfolders c path entries).map (·.map fun r => { packages := [r] }) := by
  match entries with
  | [] =>
    rw [subfolderJobs, Disk.reportOnSubfolders]
    rfl
  | (name, .folder below) :: entries =>
    rw [subfolderJobs, Disk.reportOnSubfolders, Job.results, result_folderJob,
      results_subfolderJobs d c path entries]
    cases h : d.reportOnFolder c (path.child name) (.folder below) with
    | error e => rfl
    | ok r =>
      simp only [Except.map, bind, Except.bind, ← packageName_of_reportOnFolder h,
        package_ofPackage]
      cases d.reportOnSubfolders c path entries <;> rfl
  | (name, .file bytes) :: entries =>
    rw [subfolderJobs, Disk.reportOnSubfolders, results_subfolderJobs d c path entries] <;> simp
  | (name, .link target) :: entries =>
    rw [subfolderJobs, Disk.reportOnSubfolders, results_subfolderJobs d c path entries] <;> simp

end

/-- What the job of a folder finds is what its report holds. -/
theorem result_packageJob (d : Disk) (c : Settings) (path : Path) :
    (packageJob d c path).result = (d.reportOnPackage c path).map Finding.ofPackage := by
  rw [packageJob, Disk.reportOnPackage]
  cases d.openFolder path with
  | error e => rfl
  | ok entries => exact result_folderJob d c id path (.folder entries)

theorem result_fromEntryPoint {α : Type} (d : Disk) (c : Settings) (project : Path)
    (next : Path → Job Note Failure α) :
    (fromEntryPoint d c project next).result =
      (do d.findStart c (← d.findSources c project)) >>= fun entry => (next entry).result := by
  simp only [fromEntryPoint, result_operation, bind, Except.bind]
  cases d.findSources c project <;> rfl

/-- What the job of a project finds is what the report on the package at its entry point holds. -/
theorem result_projectJob (d : Disk) (c : Settings) (project : Path) :
    (projectJob d c project).result =
      (entryPointJob d c project).result >>= fun entry =>
        (d.reportOnPackage c entry).map Finding.ofPackage := by
  rw [projectJob, entryPointJob, result_fromEntryPoint, result_fromEntryPoint]
  simp only [result_packageJob]
  cases (do d.findStart c (← d.findSources c project) : Except Failure Path) <;> rfl

end TypeAtlas
