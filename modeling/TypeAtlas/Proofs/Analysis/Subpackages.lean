import TypeAtlas.Proofs.Analysis.DistinctNames
import TypeAtlas.Proofs.Files.Steps

namespace TypeAtlas

namespace PackageReport

/-- The package that is reached by looking up one name after the other. -/
def lookUp? (r : PackageReport) : List Text → Option PackageReport
  | [] => some r
  | name :: rest => (r.findSubpackage? name).bind (·.lookUp? rest)

theorem findSubpackage?_eq_none_iff {r : PackageReport} {name : Text} :
    r.findSubpackage? name = none ↔ name ∉ r.subpackages.map packageName := by
  simp [findSubpackage?]

/-- In a set of packages with names of their own it does not matter which presentation of it is
searched. -/
theorem exists_findSubpackage?_of_same {r r' s : PackageReport} (hr : AreDistinct r.subpackages)
    (hsame : r'.same r = true) (hs : s ∈ r.subpackages) :
    ∃ s', r'.findSubpackage? s.packageName = some s' ∧ s'.same s = true := by
  obtain ⟨_, _, hmatched⟩ := same_iff.mp hsame
  obtain ⟨t, ht, hts⟩ := hmatched.2 s hs
  have hsome : (r'.findSubpackage? s.packageName).isSome := by
    rw [findSubpackage?, List.find?_isSome]
    exact ⟨t, ht, by simpa using packageName_eq_of_same hts⟩
  obtain ⟨s', hs'⟩ := Option.isSome_iff_exists.mp hsome
  have hname : s'.packageName = s.packageName := by simpa using List.find?_some hs'
  obtain ⟨u, hu, hsu⟩ := hmatched.1 s' (List.mem_of_find?_eq_some hs')
  have hus : u.same s = true :=
    hr u hu s hs ((packageName_eq_of_same hsu).symm.trans hname)
  exact ⟨s', hs', same_trans hsu hus⟩

/-- What is inside a report is what is looked up in it, whatever presentations are searched on the
way. -/
theorem exists_lookUp?_of_same {r r' q : PackageReport} {place : List Text}
    (hr : r.HasDistinctNames) (hsame : r'.same r = true) (hq : r.At place q) :
    ∃ q', r'.lookUp? place = some q' ∧ q'.same q = true := by
  induction hq generalizing r' with
  | here => exact ⟨r', rfl, hsame⟩
  | @inside r s q rest hs _ ih =>
    obtain ⟨_, hdistinct, hinner⟩ := hr
    obtain ⟨s', hfind, hs'⟩ := exists_findSubpackage?_of_same hdistinct hsame hs
    obtain ⟨q', hq', hqq⟩ := ih (hinner s hs) hs'
    refine ⟨q', ?_, hqq⟩
    rw [lookUp?, hfind]
    exact hq'

/-- Looking packages up in the report on the folder with the given entries gives the same as
analysing the folders. -/
structure LooksUp (d : Disk) (c : Settings) (path : Path) (entries : List (Text × Node))
    (r : PackageReport) : Prop where
  /-- The names of folders, one in the other, lead to the report on the last of them. -/
  found : ∀ place below, (Node.folder entries).at? place = some (.folder below) →
    ∃ q q', r.lookUp? place = some q ∧
      (analyzePackage d c (path.below place)).outcome.1 = .ok q' ∧ q.same q' = true
  /-- There is nothing under a name that is not that of a folder. -/
  missing : ∀ place below name, (Node.folder entries).at? place = some (.folder below) →
    (∀ inner, Node.find? below name ≠ some (.folder inner)) →
      ∃ q, r.lookUp? place = some q ∧ q.findSubpackage? name = none

end PackageReport

namespace Disk

variable {d : Disk} {c : Settings} {path : Path} {entries : List (Text × Node)}

theorem checkPath_of_listEntries {listing : Listing}
    (h : d.listEntries c path entries = .ok listing) : checkPath path = .ok () := by
  rw [listEntries] at h
  cases hcheck : checkPath path with
  | error fault =>
    rw [hcheck] at h
    cases h
  | ok _ => rfl

/-- The folders below a folder are opened at the paths below its path. -/
theorem openFolder_below (hnames : HasEntryNames d.root) (hopen : d.openFolder path = .ok entries)
    {place : Place} {below : List (Text × Node)}
    (hat : (Node.folder entries).at? place = some (.folder below))
    (hcheck : checkPath (path.below place) = .ok ()) :
    d.openFolder (path.below place) = .ok below := by
  obtain ⟨folder, hlocate⟩ := exists_locate_of_openFolder hopen
  obtain ⟨_, hfolder, links, hsteps⟩ := exists_steps_of_locate hlocate
  have hbelow : d.root.at? (folder ++ place) = some (.folder below) := by
    rw [Node.at?_append, hfolder]
    exact hat
  have hinside : d.Steps true ⟨links, folder, place⟩ ⟨links, folder ++ place, []⟩ :=
    steps_of_at? hnames hbelow (by simp) links
  exact openFolder_of_stat (stat_of_steps hcheck hbelow ((hsteps.append place).trans hinside))

end Disk

variable {d : Disk} {c : Settings} {path : Path} {entries : List (Text × Node)} {r : PackageReport}

/-- The report on a folder below another one is what is found in the report on that. -/
theorem exists_analyzed_of_at? (hd : d.root.HasDistinctNames) (hnames : Disk.HasEntryNames d.root)
    (hopen : d.openFolder path = .ok entries)
    (hreport : d.reportOnFolder c path (.folder entries) = .ok r) {place : Place}
    {below : List (Text × Node)} (hat : (Node.folder entries).at? place = some (.folder below)) :
    ∃ q, r.At place q ∧ d.reportOnFolder c (path.below place) (.folder below) = .ok q ∧
      (analyzePackage d c (path.below place)).outcome.1 = .ok q := by
  have hentries := Disk.hasDistinctNames_of_openFolder hd hopen
  obtain ⟨q, hq, hbelow⟩ := exists_report_of_at? hentries hreport hat
  refine ⟨q, hq, hbelow, ?_⟩
  obtain ⟨listing, hlisting, _, _⟩ := Disk.reportOnFolder_eq_ok hbelow
  have hcheck := Disk.checkPath_of_listEntries hlisting
  rw [outcome_analyzePackage_eq_ok_iff, Disk.reportOnPackage,
    Disk.openFolder_below hnames hopen hat hcheck]
  exact hbelow

/-- A package that is looked up in the report on a folder, by whatever presentation of it, is the
package that is reported when the folder below is analysed. -/
theorem looksUp_analyzePackage (hd : d.root.HasDistinctNames)
    (hnames : Disk.HasEntryNames d.root) (h : (analyzePackage d c path).outcome.1 = .ok r) :
    ∃ entries, d.openFolder path = .ok entries ∧
      ∀ r' : PackageReport, r'.same r = true → r'.LooksUp d c path entries := by
  obtain ⟨entries, hopen, hreport⟩ := exists_entries_of_analyzePackage h
  have hentries := Disk.hasDistinctNames_of_openFolder hd hopen
  have hdistinct := hasDistinctNames_of_reportOnFolder hentries hreport
  refine ⟨entries, hopen, fun r' hsame => ⟨?_, ?_⟩⟩
  · intro place below hat
    obtain ⟨q, hq, _, hanalyzed⟩ := exists_analyzed_of_at? hd hnames hopen hreport hat
    obtain ⟨q', hq', hqq⟩ := PackageReport.exists_lookUp?_of_same hdistinct hsame hq
    exact ⟨q', q, hq', hanalyzed, hqq⟩
  · intro place below name hat hname
    obtain ⟨q, hq, hbelow, _⟩ := exists_analyzed_of_at? hd hnames hopen hreport hat
    obtain ⟨q', hq', hqq⟩ := PackageReport.exists_lookUp?_of_same hdistinct hsame hq
    refine ⟨q', hq', ?_⟩
    obtain ⟨_, _, hmatched⟩ := PackageReport.same_iff.mp hqq
    have hpackages := hmatched.imp fun _ _ _ _ => PackageReport.packageName_eq_of_same
    rw [PackageReport.findSubpackage?_eq_none_iff, hpackages.mem_map_iff,
      packageNames_of_reportOnFolder hbelow]
    intro hmem
    obtain ⟨⟨_, inner⟩, hinner, rfl⟩ := List.mem_map.mp hmem
    have hnodup := (hentries.at? hat).nodup
    exact hname inner ((Node.find?_eq_some_iff hnodup).mpr (Node.mem_subfolders_iff.mp hinner))

/-- A folder with another one in it, to which there is also a link. -/
def layeredDisk : Disk where
  root := .folder [("app", .folder [("web", .folder [("A.java", .file [])]), ("www", .link "web")])]
  here := []

def onlyClass : ClassReport :=
  { className := "A", packageName := "java", declaredPackage := none, dependencies := .empty }

/-- The report on the outer folder. -/
def layeredReport : PackageReport :=
  .mk "app" [] [.mk "web" [onlyClass] []]

/-- The same with repetitions. -/
def repeatedReport : PackageReport :=
  .mk "app" [] [.mk "web" [onlyClass, onlyClass] [], .mk "web" [onlyClass] []]

theorem looksUp_repeatedReport :
    layeredDisk.root.HasDistinctNames ∧ Disk.HasEntryNames layeredDisk.root ∧
    (analyzePackage layeredDisk {} (.ofText "app")).outcome.1 = .ok layeredReport ∧
    repeatedReport.same layeredReport = true ∧
    ∃ entries, layeredDisk.openFolder (.ofText "app") = .ok entries ∧
      repeatedReport.LooksUp layeredDisk {} (.ofText "app") entries := by
  have hd : layeredDisk.root.HasDistinctNames := by
    simp only [layeredDisk, Node.hasDistinctNames_folder_iff, List.forall_mem_cons,
      List.not_mem_nil, false_implies, implies_true, Node.hasDistinctNames_file,
      Node.hasDistinctNames_link, and_true]
    decide
  have hnames : Disk.HasEntryNames layeredDisk.root := by
    refine Disk.hasEntryNames_folder ?_
    simp only [List.forall_mem_singleton]
    refine ⟨⟨by decide, by decide, by decide, by decide⟩, Disk.hasEntryNames_folder ?_⟩
    simp only [List.forall_mem_cons, List.not_mem_nil, false_implies, implies_true, and_true]
    refine ⟨⟨⟨by decide, by decide, by decide, by decide⟩, Disk.hasEntryNames_folder ?_⟩,
      ⟨by decide, by decide, by decide, by decide⟩, Disk.hasEntryNames_link "web"⟩
    simp only [List.forall_mem_singleton]
    exact ⟨⟨by decide, by decide, by decide, by decide⟩, Disk.hasEntryNames_file []⟩
  have hreport : (analyzePackage layeredDisk {} (.ofText "app")).outcome.1 = .ok layeredReport := by
    cbv
  have hsame : repeatedReport.same layeredReport = true := by cbv
  obtain ⟨entries, hopen, hlooksUp⟩ := looksUp_analyzePackage hd hnames hreport
  exact ⟨hd, hnames, hreport, hsame, entries, hopen, hlooksUp _ hsame⟩

end TypeAtlas
