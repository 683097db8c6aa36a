import TypeAtlas.Proofs.Analysis.Coverage

namespace TypeAtlas

namespace Disk

/-- The names of the source files that are listed in a folder. -/
def sourceNames (d : Disk) (c : Settings) (path : Path) (entries : List (Text × Node)) :
    List Text :=
  (d.listEntries c path entries).toOption.elim [] Listing.sources

/-- The source files in and below a node, each with the place of its folder. -/
def sourceFiles (d : Disk) (c : Settings) (path : Path) (n : Node) : List (Place × Text) :=
  n.folders.flatMap fun f => (d.sourceNames c (path.below f.1) f.2).map fun name => (f.1, name)

/-- In the folder at a place there is an entry that counts as a source file. -/
def IsSourceFile (d : Disk) (c : Settings) (path : Path) (n : Node) (place : Place)
    (name : Text) : Prop :=
  ∃ below m, n.at? place = some (.folder below) ∧ (name, m) ∈ below ∧
    d.entryKind (path.below place) c.sourceExtension name m = .ok .source

theorem sourceNames_eq {d : Disk} {c : Settings} {path : Path} {entries : List (Text × Node)}
    {listing : Listing} (h : d.listEntries c path entries = .ok listing) :
    d.sourceNames c path entries = listing.sources := by
  rw [sourceNames, h]
  rfl

/-- The source files of a folder are those in it, and those of the folders in it. -/
theorem sourceFiles_folder (d : Disk) (c : Settings) (path : Path)
    (entries : List (Text × Node)) :
    d.sourceFiles c path (.folder entries) =
      (d.sourceNames c path entries).map (fun name => ([], name)) ++
        (Node.subfolders entries).flatMap fun f =>
          (d.sourceFiles c (path.child f.1) (.folder f.2)).map fun g => (f.1 :: g.1, g.2) := by
  rw [sourceFiles, Node.folders, List.flatMap_cons, Path.below_nil, Node.foldersAmong_eq,
    List.flatMap_assoc]
  simp only [sourceFiles, List.flatMap_map, List.map_flatMap, List.map_map, Path.below_cons,
    Function.comp_def]

end Disk

section

variable {d : Disk} {c : Settings}

/-- A report counts the source files in and below a folder. -/
theorem classCount_of_reportOnFolder (path : Path) (entries : List (Text × Node))
    {r : PackageReport} (hd : (Node.folder entries).HasDistinctNames)
    (h : d.reportOnFolder c path (.folder entries) = .ok r) :
    r.classCount = (d.sourceFiles c path (.folder entries)).length := by
  obtain ⟨listing, hlisting, hclasses, hsubpackages⟩ := Disk.reportOnFolder_eq_ok h
  obtain ⟨hclass, hsub⟩ := distinct_of_reportOnFolder hd.nodup h
  have hbelow : r.subpackages.map PackageReport.classCount = (Node.subfolders entries).map
      fun f => (d.sourceFiles c (path.child f.1) (.folder f.2)).length := by
    refine map_eq_map_of_forall₂ hsubpackages fun f hf s hs => ?_
    have hlt := Node.sizeOf_lt_of_mem_subfolders hf
    exact classCount_of_reportOnFolder (path.child f.1) f.2
      (hd.entry (Node.mem_subfolders_iff.mp hf)) hs
  rw [PackageReport.classCount_eq, hclass, hsub, hbelow, Disk.sourceFiles_folder,
    Disk.sourceNames_eq hlisting, ← hclasses.length_eq]
  simp only [List.length_append, List.length_map, List.length_flatMap]
termination_by sizeOf entries

theorem mem_sourceFiles_iff {path : Path} {entries : List (Text × Node)}
    {r : PackageReport} (hd : (Node.folder entries).HasDistinctNames)
    (h : d.reportOnFolder c path (.folder entries) = .ok r) {place : Place} {name : Text} :
    (place, name) ∈ d.sourceFiles c path (.folder entries) ↔
      d.IsSourceFile c path (.folder entries) place name := by
  have hnames {below : List (Text × Node)}
      (hat : (Node.folder entries).at? place = some (.folder below)) :
      name ∈ d.sourceNames c (path.below place) below ↔ ∃ m, (name, m) ∈ below ∧
        d.entryKind (path.below place) c.sourceExtension name m = .ok .source := by
    obtain ⟨listing, hlists⟩ := exists_lists_of_at? hd h hat
    rw [Disk.sourceNames_eq hlists.listed, hlists.mem_sources]
  rw [Disk.sourceFiles, List.mem_flatMap]
  constructor
  · rintro ⟨⟨_, below⟩, hf, hname⟩
    obtain ⟨_, hmem, heq⟩ := List.mem_map.mp hname
    obtain ⟨rfl, rfl⟩ := Prod.mk.inj heq
    have hat := (Node.mem_folders_iff hd).mp hf
    obtain ⟨m, hm, hkind⟩ := (hnames hat).mp hmem
    exact ⟨below, m, hat, hm, hkind⟩
  · rintro ⟨below, m, hat, hm, hkind⟩
    refine ⟨(place, below), (Node.mem_folders_iff hd).mpr hat, ?_⟩
    exact List.mem_map.mpr ⟨name, (hnames hat).mpr ⟨m, hm, hkind⟩, rfl⟩

theorem nodup_sourceFiles {path : Path} {entries : List (Text × Node)}
    {r : PackageReport} (hd : (Node.folder entries).HasDistinctNames)
    (h : d.reportOnFolder c path (.folder entries) = .ok r) :
    (d.sourceFiles c path (.folder entries)).Nodup := by
  rw [Disk.sourceFiles, List.nodup_flatMap]
  constructor
  · rintro ⟨place, below⟩ hf
    have hat := (Node.mem_folders_iff hd).mp hf
    obtain ⟨listing, hlists⟩ := exists_lists_of_at? hd h hat
    rw [Disk.sourceNames_eq hlists.listed]
    exact hlists.nodup_sources.map fun name other heq => (Prod.mk.inj heq).2
  · have hplaces := Node.nodup_folders _ hd
    rw [List.Nodup, List.pairwise_map] at hplaces
    refine hplaces.imp fun hne => List.disjoint_left.mpr ?_
    intro file hfile hother
    obtain ⟨_, _, rfl⟩ := List.mem_map.mp hfile
    obtain ⟨_, _, heq⟩ := List.mem_map.mp hother
    exact hne (Prod.mk.inj heq).1.symm

end

end TypeAtlas
