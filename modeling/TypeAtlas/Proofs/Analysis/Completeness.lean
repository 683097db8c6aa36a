import Mathlib
import TypeAtlas.Proofs.Analysis.SourceFiles
import TypeAtlas.Proofs.Analysis.Visits

namespace TypeAtlas

open Concurrency

/-- A report and the visits that led to it miss nothing in and below the folder with the given
entries, and have nothing twice. -/
structure PackageReport.IsComplete (d : Disk) (c : Settings) (path : Path)
    (entries : List (Text × Node)) (r : PackageReport) (visits : List Path) : Prop where
  /-- Every level of the report reflects the folder at its place. -/
  reflects : ∀ place q, r.At place q →
    ∃ below, (Node.folder entries).at? place = some (.folder below) ∧
      q.Reflects d c (path.below place) below
  /-- Every folder has one report. -/
  reported : ∀ place below, (Node.folder entries).at? place = some (.folder below) →
    ∃! q, r.At place q
  /-- The classes that are counted are as many as there are source files. -/
  counted : ∃ files : List (Place × Text), files.Nodup ∧
    (∀ place name, (place, name) ∈ files ↔
      d.IsSourceFile c path (.folder entries) place name) ∧
    r.classCount = files.length
  nodup_visits : visits.Nodup
  visited : ∀ p, p ∈ visits ↔
    ∃ place below, (Node.folder entries).at? place = some (.folder below) ∧ p = path.below place

/-- An analysis that succeeds has opened the folder at its path, and reports on it. -/
theorem exists_entries_of_analyzePackage {d : Disk} {c : Settings} {path : Path}
    {r : PackageReport} (h : (analyzePackage d c path).outcome.1 = .ok r) :
    ∃ entries, d.openFolder path = .ok entries ∧
      d.reportOnFolder c path (.folder entries) = .ok r := by
  rw [outcome_analyzePackage_eq_ok_iff] at h
  obtain ⟨entries, hentries, hfolder⟩ := bind_eq_ok_iff.mp h
  refine ⟨entries, ?_, hfolder⟩
  cases hopen : d.openFolder path with
  | error e => simp [hopen, Except.mapError] at hentries
  | ok found =>
    rw [hopen] at hentries
    rw [Except.ok.inj hentries]

theorem packageName_analyzePackage {d : Disk} {c : Settings} {path : Path} {r : PackageReport}
    (h : (analyzePackage d c path).outcome.1 = .ok r) : r.packageName = d.baseName path := by
  obtain ⟨entries, _, hreport⟩ := exists_entries_of_analyzePackage h
  exact packageName_of_reportOnFolder hreport

/-- At each place a report holds at most one report. -/
theorem at_unique {d : Disk} {c : Settings} {path : Path} {entries : List (Text × Node)}
    {r q q' : PackageReport} {place : List Text} (hd : (Node.folder entries).HasDistinctNames)
    (h : d.reportOnFolder c path (.folder entries) = .ok r) (hq : r.At place q)
    (hq' : r.At place q') : q' = q := by
  induction hq generalizing path entries with
  | here =>
    cases hq'
    rfl
  | @inside r s q rest hs hq ih =>
    generalize hplace : s.packageName :: rest = place at hq'
    cases hq' with
    | here => cases hplace
    | @inside _ s' _ rest' hs' hq' =>
      obtain ⟨hname, rfl⟩ := List.cons.inj hplace
      have hnodup : (r.subpackages.map PackageReport.packageName).Nodup := by
        rw [packageNames_of_reportOnFolder h]
        exact Node.nodup_subfolders hd.nodup
      obtain rfl := List.inj_on_of_nodup_map hnodup hs hs' hname
      obtain ⟨_, _, _, hsubpackages⟩ := Disk.reportOnFolder_eq_ok h
      obtain ⟨f, hf, hreport⟩ := exists_of_forall₂_right hsubpackages hs
      exact ih (hd.entry (Node.mem_subfolders_iff.mp hf)) hreport hq'

/-- An analysis that succeeds loses no folder and no source file, and has none twice. -/
theorem isComplete_analyzePackage {d : Disk} {c : Config} {path : Path} {r : PackageReport}
    (hd : d.root.HasDistinctNames)
    (h : (analyzePackage d c.toSettings path).outcome.1 = .ok r) :
    ∃ entries, d.openFolder path = .ok entries ∧
      r.IsComplete d c.toSettings path entries
        ((analyzePackage d c.toSettings path).outcome.2.filterMap Note.visited?) := by
  obtain ⟨entries, hopen, hreport⟩ := exists_entries_of_analyzePackage h
  have hnames := Disk.hasDistinctNames_of_openFolder hd hopen
  have hvisits := visited_analyzePackage d c.toSettings hopen hreport h
  refine ⟨entries, hopen, ?_, ?_, ?_, ?_, ?_⟩
  · intro place q hq
    obtain ⟨below, hat, hbelow⟩ := exists_folder_of_at hnames hreport hq
    exact ⟨below, hat, reflects_of_reportOnFolder (hnames.at? hat).nodup hbelow⟩
  · intro place below hat
    obtain ⟨q, hq, _⟩ := exists_report_of_at? hnames hreport hat
    exact ⟨q, hq, fun q' hq' => at_unique hnames hreport hq hq'⟩
  · have hcount := classCount_of_reportOnFolder path entries hnames hreport
    exact ⟨_, nodup_sourceFiles hnames hreport, fun place name =>
      mem_sourceFiles_iff hnames hreport, hcount⟩
  · rw [hvisits.nodup_iff, ← Function.comp_def path.below, ← List.map_map]
    exact (Node.nodup_folders _ hnames).map path.below_injective
  · intro p
    rw [hvisits.mem_iff, List.mem_map]
    constructor
    · rintro ⟨⟨place, below⟩, hf, rfl⟩
      exact ⟨place, below, (Node.mem_folders_iff hnames).mp hf, rfl⟩
    · rintro ⟨place, below, hat, rfl⟩
      exact ⟨(place, below), (Node.mem_folders_iff hnames).mpr hat, rfl⟩

/-- A disk with two source files of the same name, and links to a folder from within and from
outside. -/
def linkedDisk : Disk where
  root := .folder
    [("src", .folder
        [("A.java", .file []), ("sub", .folder [("A.java", .file [])]), ("up", .link "..")]),
      ("s", .link "src")]
  here := []

/-- The report on the folder that is reached through the outer link. -/
def linkedReport : PackageReport :=
  let report : ClassReport :=
    { className := "A", packageName := "java", declaredPackage := none, dependencies := .empty }
  .mk "s" [report] [.mk "sub" [report] []]

theorem isComplete_linkedReport :
    linkedDisk.root.HasDistinctNames ∧
    (analyzePackage linkedDisk {} { root := .single, names := ["s"] }).outcome.1 =
      .ok linkedReport ∧
    ∃ entries, linkedDisk.openFolder { root := .single, names := ["s"] } = .ok entries ∧
      linkedReport.IsComplete linkedDisk {} { root := .single, names := ["s"] } entries
        ((analyzePackage linkedDisk {} { root := .single, names := ["s"] }).outcome.2.filterMap
          Note.visited?) := by
  have hd : linkedDisk.root.HasDistinctNames := by
    simp only [linkedDisk, Node.hasDistinctNames_folder_iff, List.forall_mem_cons,
      List.not_mem_nil, false_implies, implies_true, Node.hasDistinctNames_file,
      Node.hasDistinctNames_link, and_true, true_and]
    decide
  have h : (analyzePackage linkedDisk {} { root := .single, names := ["s"] }).outcome.1 =
      .ok linkedReport := by cbv
  exact ⟨hd, h, isComplete_analyzePackage (c := {}) hd h⟩

end TypeAtlas
