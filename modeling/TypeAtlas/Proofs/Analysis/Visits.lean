import TypeAtlas.Proofs.Analysis.Coverage
import TypeAtlas.Proofs.Rounds.Notes

namespace TypeAtlas

open Concurrency

/-- The folder that is done according to a note. -/
def Note.visited? : Note → Option Path
  | .packageDone path _ _ => some path
  | _ => none

theorem notes_collect (jobs : List AnalysisJob) :
    (collect jobs).notes = jobs.flatMap Job.notes := by
  rw [collect, Job.notes, Job.notesOfAll_eq_flatMap]
  cases Job.results jobs <;> simp [Except.toOption]

section

variable (d : Disk) (c : Settings)

theorem subfolderJobs_eq_map (path : Path) (entries : List (Text × Node)) :
    subfolderJobs d c path entries = (Node.subfolders entries).map fun f =>
      folderJob d c (fun found => { packages := [found.package (d.baseName (path.child f.1))] })
        (path.child f.1) (.folder f.2) := by
  induction entries with
  | nil => rfl
  | cons entry entries ih =>
    obtain ⟨name, n⟩ := entry
    cases n with
    | folder below => rw [subfolderJobs, ih, Node.subfolders, List.map_cons]
    | file bytes =>
      rw [subfolderJobs, ih, Node.subfolders]
      all_goals simp
    | link target =>
      rw [subfolderJobs, ih, Node.subfolders]
      all_goals simp

/-- No folder is visited in the analysis of a source file. -/
theorem visited_classJob (path : Path) :
    (classJob d c path).notes.filterMap Note.visited? = [] := by
  rw [classJob]
  cases d.readSource path with
  | error e => rfl
  | ok source =>
    simp only [operation]
    cases Disk.reportOnSource c path source <;> rfl

/-- In the analysis of a folder, each folder in and below it is visited once. -/
theorem visited_folderJob (present : Finding → Finding) (path : Path)
    (entries : List (Text × Node)) {r : PackageReport}
    (h : d.reportOnFolder c path (.folder entries) = .ok r) :
    ((folderJob d c present path (.folder entries)).notes.filterMap Note.visited?).Perm
      ((Node.folder entries).folders.map fun f => path.below f.1) := by
  obtain ⟨listing, hlisting, _, hsubpackages⟩ := Disk.reportOnFolder_eq_ok h
  have hbelow : (((subfolderJobs d c path entries).flatMap Job.notes).filterMap Note.visited?).Perm
      ((Node.foldersAmong entries).map fun f => path.below f.1) := by
    rw [subfolderJobs_eq_map, Node.foldersAmong_eq, List.map_flatMap, List.flatMap_map,
      List.filterMap_flatMap]
    refine .flatMap_left _ fun f hf => ?_
    obtain ⟨s, _, hs⟩ := exists_of_forall₂_left hsubpackages hf
    have hlt := Node.sizeOf_lt_of_mem_subfolders hf
    rw [List.map_map]
    simp only [Function.comp_def, Path.below_cons]
    exact visited_folderJob _ (path.child f.1) f.2 hs
  have hresult := result_folderJob d c present path (.folder entries)
  rw [h, folderJob, hlisting] at hresult
  rw [folderJob, hlisting]
  simp only [operation] at hresult ⊢
  have hclasses : ((listing.sources.map fun name => classJob d c (path.child name)).flatMap
      Job.notes).filterMap Note.visited? = [] := by
    rw [List.flatMap_map, List.filterMap_flatMap]
    simp [visited_classJob]
  have hskipped : (listing.linkedFolders.map (Note.skippedLink path)).filterMap Note.visited? =
      [] := by
    simp [List.filterMap_map, Function.comp_def, Note.visited?]
  rw [Job.result, Job.result] at hresult
  obtain ⟨fs, hfs, _⟩ := map_eq_ok_iff.mp hresult
  rw [Job.notes, Job.notes, hfs, Job.notesOfAll, Job.notesOfAll, Job.notesOfAll, notes_collect,
    notes_collect, List.append_nil]
  simp only [Except.toOption, Option.elim_some, List.filterMap_append, hclasses, hskipped,
    List.nil_append]
  rw [Node.folders, List.map_cons, Path.below_nil]
  exact (hbelow.append_right [path]).trans List.perm_append_comm
termination_by sizeOf entries

/-- The notes on an analysis that succeeds are those of its job. -/
theorem perm_notes_analyzePackage {path : Path} {r : PackageReport}
    (h : (analyzePackage d c path).outcome.1 = .ok r) :
    (analyzePackage d c path).outcome.2.Perm (packageJob d c path).notes := by
  rcases hrun : (packageJob d c path).run (Analysis.lossNotes c) with ⟨made, e | found⟩
  · rw [analyzePackage, outcome_ofJob_bind, hrun] at h
    cases h
  · have hperm := Job.perm_notes_of_run (Analysis.lossNotes c) hrun
    have hnotes : (analyzePackage d c path).outcome.2 = made := by
      rw [analyzePackage, Analysis.ofJob, hrun]
      rfl
    rw [hnotes]
    exact hperm

/-- An analysis that succeeds visits each folder in and below the one at its path once. -/
theorem visited_analyzePackage {path : Path} {entries : List (Text × Node)} {r : PackageReport}
    (hopen : d.openFolder path = .ok entries)
    (hreport : d.reportOnFolder c path (.folder entries) = .ok r)
    (h : (analyzePackage d c path).outcome.1 = .ok r) :
    ((analyzePackage d c path).outcome.2.filterMap Note.visited?).Perm
      ((Node.folder entries).folders.map fun f => path.below f.1) := by
  have hperm := (perm_notes_analyzePackage d c h).filterMap Note.visited?
  rw [packageJob, hopen] at hperm
  exact hperm.trans (visited_folderJob d c id path entries hreport)

end

end TypeAtlas
