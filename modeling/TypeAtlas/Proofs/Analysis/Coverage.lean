import TypeAtlas.Analysis.PackageResults
import TypeAtlas.Proofs.Analysis.Listings
import TypeAtlas.Proofs.Files.Subtrees
import TypeAtlas.Proofs.Report.Distinct

namespace TypeAtlas

namespace Disk

theorem reportOnClasses_eq_mapM (d : Disk) (c : Settings) (folder : Path) (names : List Text) :
    d.reportOnClasses c folder names =
      names.mapM fun name => d.reportOnClass c (folder.child name) := by
  induction names with
  | nil => rfl
  | cons name names ih => rw [reportOnClasses, List.mapM_cons, ih]

theorem reportOnSubfolders_cons_of_not_folder (d : Disk) (c : Settings) (path : Path) (name : Text)
    {n : Node} (hn : ∀ below, n ≠ .folder below) (entries : List (Text × Node)) :
    d.reportOnSubfolders c path ((name, n) :: entries) = d.reportOnSubfolders c path entries := by
  rw [reportOnSubfolders]
  rintro _ below ⟨⟩
  exact hn below rfl

theorem reportOnSubfolders_eq_mapM (d : Disk) (c : Settings) (path : Path)
    (entries : List (Text × Node)) :
    d.reportOnSubfolders c path entries = (Node.subfolders entries).mapM fun f =>
      d.reportOnFolder c (path.child f.1) (.folder f.2) := by
  induction entries with
  | nil => rw [reportOnSubfolders, Node.subfolders, List.mapM_nil]
  | cons entry entries ih =>
    obtain ⟨name, n⟩ := entry
    cases n with
    | folder below => rw [reportOnSubfolders, Node.subfolders, List.mapM_cons, ih]
    | file bytes => rwa [reportOnSubfolders_cons_of_not_folder _ _ _ _ (by simp)]
    | link target => rwa [reportOnSubfolders_cons_of_not_folder _ _ _ _ (by simp)]

theorem reportOnClasses_eq_ok {d : Disk} {c : Settings} {folder : Path} {names : List Text}
    {rs : List ClassReport} (h : d.reportOnClasses c folder names = .ok rs) :
    List.Forall₂ (fun name r => d.reportOnClass c (folder.child name) = .ok r) names rs := by
  rw [reportOnClasses_eq_mapM] at h
  exact mapM_eq_ok_iff.mp h

theorem reportOnSubfolders_eq_ok {d : Disk} {c : Settings} {path : Path}
    {entries : List (Text × Node)} {rs : List PackageReport}
    (h : d.reportOnSubfolders c path entries = .ok rs) :
    List.Forall₂ (fun f r => d.reportOnFolder c (path.child f.1) (.folder f.2) = .ok r)
      (Node.subfolders entries) rs := by
  rw [reportOnSubfolders_eq_mapM] at h
  exact mapM_eq_ok_iff.mp h

theorem reportOnFolder_eq_ok {d : Disk} {c : Settings} {path : Path} {entries : List (Text × Node)}
    {r : PackageReport} (h : d.reportOnFolder c path (.folder entries) = .ok r) :
    ∃ listing, d.listEntries c path entries = .ok listing ∧
      List.Forall₂ (fun name k => d.reportOnClass c (path.child name) = .ok k)
        listing.sources r.classes ∧
      List.Forall₂ (fun f s => d.reportOnFolder c (path.child f.1) (.folder f.2) = .ok s)
        (Node.subfolders entries) r.subpackages := by
  simp only [reportOnFolder, bind_eq_ok_iff, pure_eq_ok_iff] at h
  obtain ⟨listing, hlisting, classes, hclasses, subpackages, hsubpackages, rfl⟩ := h
  exact ⟨listing, hlisting, reportOnClasses_eq_ok hclasses,
    reportOnSubfolders_eq_ok hsubpackages⟩

theorem className_of_reportOnClass {d : Disk} {c : Settings} {folder : Path} {name : Text}
    {k : ClassReport} (h : d.reportOnClass c (folder.child name) = .ok k) :
    k.className = withoutExtension c.sourceExtension name := by
  obtain ⟨source, _, h⟩ := bind_eq_ok_iff.mp h
  obtain ⟨deps, _, rfl⟩ := map_eq_ok_iff.mp h
  simp [ClassReport.ofDependencies, Path.name, Path.child]

theorem baseName_child (d : Disk) (p : Path) (name : Text) : d.baseName (p.child name) = name := by
  simp [baseName, Path.child, Path.name]

end Disk

/-- How a report reflects the folder with the given entries. Its classes are, without repetition,
the source files that are listed, of which they have the names, and so are its subpackages the
folders. -/
structure PackageReport.Reflects (d : Disk) (c : Settings) (path : Path)
    (entries : List (Text × Node)) (r : PackageReport) : Prop where
  name : r.packageName = d.baseName path
  contents : ∃ listing, d.Lists c path entries listing ∧
    ((distinctClasses r.classes).map fun k => k.className ++ c.sourceExtension).Perm
      listing.sources ∧
    ((distinct r.subpackages).map packageName).Perm listing.folders

section

variable {d : Disk} {c : Settings} {path : Path} {entries : List (Text × Node)} {r : PackageReport}

theorem packageNames_of_reportOnFolder (h : d.reportOnFolder c path (.folder entries) = .ok r) :
    r.subpackages.map PackageReport.packageName = (Node.subfolders entries).map (·.1) := by
  obtain ⟨_, _, _, hsubpackages⟩ := Disk.reportOnFolder_eq_ok h
  refine map_eq_map_of_forall₂ hsubpackages fun f _ s hs => ?_
  rw [packageName_of_reportOnFolder hs, Disk.baseName_child]

theorem exists_sources_of_reportOnFolder (hnames : (entries.map (·.1)).Nodup)
    (h : d.reportOnFolder c path (.folder entries) = .ok r) :
    ∃ listing, d.Lists c path entries listing ∧
      r.classes.map (fun k => k.className ++ c.sourceExtension) = listing.sources := by
  obtain ⟨listing, hlisting, hclasses, _⟩ := Disk.reportOnFolder_eq_ok h
  have hlists := Disk.lists_of_listEntries hlisting hnames
  refine ⟨listing, hlists, ?_⟩
  rw [← List.map_id listing.sources]
  refine map_eq_map_of_forall₂ hclasses fun name hn k hk => ?_
  obtain ⟨n, _, hkind⟩ := (hlists.mem_sources name).mp hn
  rw [Disk.className_of_reportOnClass hk]
  exact withoutExtension_append (Disk.entryKind_eq_source hkind)

/-- Nothing in a report gets lost when its lists are taken as sets. -/
theorem distinct_of_reportOnFolder (hnames : (entries.map (·.1)).Nodup)
    (h : d.reportOnFolder c path (.folder entries) = .ok r) :
    PackageReport.distinctClasses r.classes = r.classes ∧
      PackageReport.distinct r.subpackages = r.subpackages := by
  obtain ⟨listing, hlists, hsources⟩ := exists_sources_of_reportOnFolder hnames h
  have hfolders := packageNames_of_reportOnFolder h
  constructor
  · apply PackageReport.distinctClasses_of_nodup
    apply List.Nodup.of_map fun k => k.className ++ c.sourceExtension
    rw [hsources]
    exact hlists.nodup_sources
  · apply PackageReport.distinct_of_nodup
    rw [hfolders]
    exact Node.nodup_subfolders hnames

theorem reflects_of_reportOnFolder (hnames : (entries.map (·.1)).Nodup)
    (h : d.reportOnFolder c path (.folder entries) = .ok r) : r.Reflects d c path entries := by
  obtain ⟨listing, hlists, hsources⟩ := exists_sources_of_reportOnFolder hnames h
  obtain ⟨hclasses, hsubpackages⟩ := distinct_of_reportOnFolder hnames h
  refine ⟨packageName_of_reportOnFolder h, listing, hlists, ?_, ?_⟩
  · rw [hclasses, hsources]
  · rw [hsubpackages, packageNames_of_reportOnFolder h,
      List.perm_ext_iff_of_nodup (Node.nodup_subfolders hnames) hlists.nodup_folders]
    intro name
    rw [hlists.mem_folders, List.mem_map]
    constructor
    · rintro ⟨⟨_, below⟩, hbelow, rfl⟩
      exact ⟨below, Node.mem_subfolders_iff.mp hbelow⟩
    · rintro ⟨below, hbelow⟩
      exact ⟨(name, below), Node.mem_subfolders_iff.mpr hbelow, rfl⟩

/-- A report on a folder holds at each place the report on the folder there. -/
theorem exists_report_of_at? (hd : (Node.folder entries).HasDistinctNames)
    (h : d.reportOnFolder c path (.folder entries) = .ok r) {place : Place}
    {below : List (Text × Node)} (hat : (Node.folder entries).at? place = some (.folder below)) :
    ∃ q, r.At place q ∧ d.reportOnFolder c (path.below place) (.folder below) = .ok q := by
  induction place generalizing path entries r with
  | nil =>
    obtain rfl := Node.folder.inj (Option.some.inj hat)
    exact ⟨r, .here, by rwa [Path.below_nil]⟩
  | cons name rest ih =>
    obtain ⟨n, hn, hrest⟩ := (Node.at?_cons_eq_some_iff hd.nodup).mp hat
    obtain ⟨es, rfl⟩ := Node.exists_entries_of_at? hrest
    obtain ⟨_, _, _, hsubpackages⟩ := Disk.reportOnFolder_eq_ok h
    obtain ⟨s, hs, hreport⟩ := exists_of_forall₂_left hsubpackages (Node.mem_subfolders_iff.mpr hn)
    obtain ⟨q, hq, hbelow⟩ := ih (hd.entry hn) hreport hrest
    have hname : s.packageName = name := by
      rw [packageName_of_reportOnFolder hreport, Disk.baseName_child]
    refine ⟨q, ?_, ?_⟩
    · rw [← hname]
      exact .inside hs hq
    · rwa [Path.below_cons]

/-- Where there is a report on a folder, all folders in and below it have been listed. -/
theorem exists_lists_of_at? (hd : (Node.folder entries).HasDistinctNames)
    (h : d.reportOnFolder c path (.folder entries) = .ok r) {place : Place}
    {below : List (Text × Node)} (hat : (Node.folder entries).at? place = some (.folder below)) :
    ∃ listing, d.Lists c (path.below place) below listing := by
  obtain ⟨q, _, hq⟩ := exists_report_of_at? hd h hat
  obtain ⟨listing, hlisting, _, _⟩ := Disk.reportOnFolder_eq_ok hq
  exact ⟨listing, Disk.lists_of_listEntries hlisting (hd.at? hat).nodup⟩

/-- Whatever a report on a folder holds is the report on a folder at the same place. -/
theorem exists_folder_of_at (hd : (Node.folder entries).HasDistinctNames)
    (h : d.reportOnFolder c path (.folder entries) = .ok r) {place : Place} {q : PackageReport}
    (hat : r.At place q) :
    ∃ below, (Node.folder entries).at? place = some (.folder below) ∧
      d.reportOnFolder c (path.below place) (.folder below) = .ok q := by
  induction hat generalizing path entries with
  | here => exact ⟨entries, rfl, by rwa [Path.below_nil]⟩
  | @inside r s q rest hs _ ih =>
    obtain ⟨_, _, _, hsubpackages⟩ := Disk.reportOnFolder_eq_ok h
    obtain ⟨⟨name, es⟩, hes, hreport⟩ := exists_of_forall₂_right hsubpackages hs
    have hentry := Node.mem_subfolders_iff.mp hes
    obtain ⟨below, hat, hbelow⟩ := ih (hd.entry hentry) hreport
    have hname : s.packageName = name := by
      rw [packageName_of_reportOnFolder hreport, Disk.baseName_child]
    refine ⟨below, ?_, ?_⟩
    · rw [hname]
      exact (Node.at?_cons_eq_some_iff hd.nodup).mpr ⟨_, hentry, hat⟩
    · rwa [hname, Path.below_cons]

end

end TypeAtlas
