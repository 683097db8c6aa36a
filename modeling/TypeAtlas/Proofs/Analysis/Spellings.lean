import TypeAtlas.Proofs.Agreement
import TypeAtlas.Proofs.Analysis.EntryPoint
import TypeAtlas.Proofs.Files.Spellings

namespace TypeAtlas

namespace PackageReport

/-- The same report under another name. -/
def renamed (r : PackageReport) (name : Text) : PackageReport :=
  .mk name r.classes r.subpackages

@[simp] theorem renamed_packageName (r : PackageReport) : r.renamed r.packageName = r := by
  cases r
  rfl

theorem same_renamed_iff {r : PackageReport} {name : Text} :
    r.same (r.renamed name) = true ↔ r.packageName = name := by
  obtain ⟨_, hclasses, hsubpackages⟩ := same_iff.mp r.same_refl
  rw [same_iff]
  exact ⟨fun h => h.1, fun h => ⟨h, hclasses, hsubpackages⟩⟩

end PackageReport

theorem ProjectReport.same_renamed_iff {r : ProjectReport} {name : Text} :
    (Report.ofProject r).same (.ofProject { r with projectName := name }) = true ↔
      r.projectName = name := by
  rw [Report.same_ofProject_iff]
  exact ⟨fun h => h.1, fun h => ⟨h, matched_refl fun p _ => p.same_refl⟩⟩

namespace Disk

/-- The system can be asked for the paths of all that is in and below a node at a path. -/
def IsAskable (path : Path) (n : Node) : Prop :=
  ∀ place m, n.at? place = some m → checkPath (path.below place) = .ok ()

variable {d : Disk} {c : Settings} {p q : Path}

theorem IsAskable.here {n : Node} (h : IsAskable p n) : checkPath p = .ok () := by
  have hcheck := h [] n (by cases n <;> rfl)
  rwa [Path.below_nil] at hcheck

theorem IsAskable.entry {entries : List (Text × Node)} (hn : (Node.folder entries).HasDistinctNames)
    (h : IsAskable p (.folder entries)) {name : Text} {n : Node} (hmem : (name, n) ∈ entries) :
    IsAskable (p.child name) n := by
  intro place m hm
  rw [← Path.below_cons]
  exact h (name :: place) m ((Node.at?_cons_eq_some_iff hn.nodup).mpr ⟨n, hmem, hm⟩)

theorem isAskable_file (h : checkPath p = .ok ()) (bytes : List UInt8) :
    IsAskable p (.file bytes) := by
  intro place m hm
  cases place with
  | nil => rwa [Path.below_nil]
  | cons name place => cases hm

theorem isAskable_folder {entries : List (Text × Node)} (h : checkPath p = .ok ())
    (hentries : ∀ entry ∈ entries, IsAskable (p.child entry.1) entry.2) :
    IsAskable p (.folder entries) := by
  intro place m hm
  cases place with
  | nil => rwa [Path.below_nil]
  | cons name place =>
    rw [Node.at?_cons, Option.bind_eq_some_iff] at hm
    obtain ⟨n, hfind, hm⟩ := hm
    rw [Path.below_cons]
    exact hentries _ (Node.mem_of_find? hfind) place m hm

/-- What an entry leads to does not depend on which of two paths the folder has been opened by. -/
theorem Interchangeable.stat_child_eq (h : d.Interchangeable p q) {entries : List (Text × Node)}
    (hn : (Node.folder entries).HasDistinctNames) (hp : IsAskable p (.folder entries))
    (hq : IsAskable q (.folder entries)) {name : Text} {n : Node} (hmem : (name, n) ∈ entries) :
    d.stat (p.child name) = d.stat (q.child name) :=
  (h.child name).stat_eq (hp.entry hn hmem).here (hq.entry hn hmem).here

theorem entryKinds_congr {extension : Text} {entries : List (Text × Node)}
    (h : ∀ name n, (name, n) ∈ entries → d.stat (p.child name) = d.stat (q.child name)) :
    d.entryKinds p extension entries = d.entryKinds q extension entries := by
  induction entries with
  | nil => rfl
  | cons entry entries ih =>
    obtain ⟨name, n⟩ := entry
    have hkind : d.entryKind p extension name n = d.entryKind q extension name n := by
      simp only [entryKind, h name n List.mem_cons_self]
    rw [entryKinds, entryKinds, hkind, ih fun other m hm => h other m (List.mem_cons_of_mem _ hm)]

theorem agree_reportOnClass_child {name : Text}
    (h : d.stat (p.child name) = d.stat (q.child name)) :
    Agree Eq (d.reportOnClass c (p.child name)) (d.reportOnClass c (q.child name)) := by
  have hcontents : d.contents (p.child name) = d.contents (q.child name) := by
    rw [contents, contents, h]
  have hsource : Agree Eq (d.readSource (p.child name)) (d.readSource (q.child name)) := by
    rw [readSource, readSource, hcontents]
    exact (Agree.refl _).mapError.map fun _ _ heq => congrArg Text.ofBytes heq
  refine hsource.bind ?_
  rintro source _ rfl
  refine (Agree.refl _).mapError.map ?_
  rintro deps _ rfl
  simp [ClassReport.ofDependencies, Path.name, Path.child]

/-- The reports on a folder by two paths that lead to it are the same but for its name. -/
theorem agree_renamed_reportOnFolder {n : Node} (h : d.Interchangeable p q)
    (hn : n.HasDistinctNames) (hp : IsAskable p n) (hq : IsAskable q n) :
    Agree (fun r s => s = r.renamed (d.baseName q)) (d.reportOnFolder c p n)
      (d.reportOnFolder c q n) := by
  induction n using Node.induction_entries generalizing p q with
  | file bytes =>
    simp only [reportOnFolder]
    exact .error
  | link target =>
    simp only [reportOnFolder]
    exact .error
  | folder entries ih =>
    have hstat : ∀ name n, (name, n) ∈ entries → d.stat (p.child name) = d.stat (q.child name) :=
      fun _ _ hmem => h.stat_child_eq hn hp hq hmem
    have hlisting : Agree
        (fun found found' => d.listEntries c p entries = .ok found ∧ found = found')
        (d.listEntries c p entries) (d.listEntries c q entries) := by
      have hequal : Agree Eq (d.listEntries c p entries) (d.listEntries c q entries) := by
        rw [listEntries, listEntries, hp.here, hq.here, ok_bind, ok_bind, listing, listing,
          entryKinds_congr hstat]
        exact (Agree.refl _).mapError
      exact hequal.imp fun found found' hfound _ heq => ⟨hfound, heq⟩
    have hsubpackages :
        Agree Eq (d.reportOnSubfolders c p entries) (d.reportOnSubfolders c q entries) := by
      rw [reportOnSubfolders_eq_mapM, reportOnSubfolders_eq_mapM]
      refine .mapM_eq fun f hf => ?_
      have hmem := Node.mem_subfolders_iff.mp hf
      have hinside := ih f.1 (.folder f.2) hmem (h.child f.1) (hn.entry hmem) (hp.entry hn hmem)
        (hq.entry hn hmem)
      refine hinside.imp fun r s hr _ hrenamed => ?_
      -- In the same folder, the two have the same name.
      have hname : r.packageName = f.1 := by
        rw [packageName_of_reportOnFolder hr, baseName_child]
      rw [hrenamed, baseName_child, ← hname, r.renamed_packageName]
    rw [reportOnFolder, reportOnFolder]
    refine hlisting.bind ?_
    rintro found _ ⟨hfound, rfl⟩
    have hlists := lists_of_listEntries hfound hn.nodup
    have hclasses :
        Agree Eq (d.reportOnClasses c p found.sources) (d.reportOnClasses c q found.sources) := by
      rw [reportOnClasses_eq_mapM, reportOnClasses_eq_mapM]
      refine .mapM_eq fun name hname => ?_
      obtain ⟨n, hmem, _⟩ := (hlists.mem_sources name).mp hname
      exact agree_reportOnClass_child (hstat name n hmem)
    refine hclasses.bind ?_
    rintro classes _ rfl
    refine hsubpackages.bind ?_
    rintro subpackages _ rfl
    exact .pure rfl

theorem Interchangeable.openFolder_eq (h : d.Interchangeable p q) (hp : checkPath p = .ok ())
    (hq : checkPath q = .ok ()) : d.openFolder p = d.openFolder q := by
  rw [openFolder, openFolder, h.stat_eq hp hq]

/-- Two searches that start at different paths find the same if the names by which they go on from
there are the same. -/
inductive FoundAlike (name : Text) (p q : Path) : Option Path → Option Path → Prop
  | found {front : List Text} :
      FoundAlike name p q (some (p.below (front ++ [name]))) (some (q.below (front ++ [name])))
  | missed : FoundAlike name p q none none

theorem FoundAlike.child (name : Text) (p q : Path) :
    FoundAlike name p q (some (p.child name)) (some (q.child name)) := by
  have hfound :
      FoundAlike name p q (some (p.below ([] ++ [name]))) (some (q.below ([] ++ [name]))) := .found
  rwa [Path.below_concat, Path.below_concat, Path.below_nil, Path.below_nil] at hfound

theorem FoundAlike.inside {name child : Text} {found found' : Option Path}
    (h : FoundAlike name (p.child child) (q.child child) found found') :
    FoundAlike name p q found found' := by
  cases h with
  | missed => exact .missed
  | found =>
    rw [← Path.below_cons, ← Path.below_cons, ← List.cons_append]
    exact .found

theorem agree_findAmong {name : Text} {entries : List (Text × Node)}
    (h : ∀ child n, (child, n) ∈ entries →
      Agree (FoundAlike name (p.child child) (q.child child)) (d.findBelow name (p.child child) n)
        (d.findBelow name (q.child child) n)) :
    Agree (FoundAlike name p q) (d.findAmong name p entries) (d.findAmong name q entries) := by
  induction entries with
  | nil =>
    rw [findAmong, findAmong]
    exact .pure .missed
  | cons entry entries ih =>
    obtain ⟨child, n⟩ := entry
    have hrest := ih fun other m hm => h other m (List.mem_cons_of_mem _ hm)
    rw [findAmong, findAmong]
    refine (h child n List.mem_cons_self).bind fun found found' hfound => ?_
    cases hfound.inside with
    | found => exact .pure .found
    | missed => exact hrest

/-- A search comes to the same by two paths that lead to its start. -/
theorem agree_findBelow {name : Text} {n : Node} (h : d.Interchangeable p q)
    (hn : n.HasDistinctNames) (hp : IsAskable p n) (hq : IsAskable q n) :
    Agree (FoundAlike name p q) (d.findBelow name p n) (d.findBelow name q n) := by
  induction n using Node.induction_entries generalizing p q with
  | file bytes =>
    simp only [findBelow]
    exact .pure .missed
  | link target =>
    simp only [findBelow]
    exact .pure .missed
  | folder entries ih =>
    have hany : (Node.find? entries name).any (d.isFolderEntry p name) =
        (Node.find? entries name).any (d.isFolderEntry q name) := by
      cases hfind : Node.find? entries name with
      | none => rfl
      | some m =>
        have hstat := h.stat_child_eq hn hp hq (Node.mem_of_find? hfind)
        cases m with
        | folder below => rfl
        | file bytes => rfl
        | link target => simp only [Option.any_some, isFolderEntry, isFolder, hstat]
    rw [findBelow, findBelow, hp.here, hq.here, mapError_ok, ok_bind, hany]
    split
    · exact .pure (.child name p q)
    · refine agree_findAmong fun child m hmem => ?_
      exact ih child m hmem (h.child child) (hn.entry hmem) (hp.entry hn hmem) (hq.entry hn hmem)

theorem agree_childFolder? {name : Text} (h : d.Interchangeable p q) (hp : checkPath p = .ok ())
    (hq : checkPath q = .ok ()) (hp' : checkPath (p.child name) = .ok ())
    (hq' : checkPath (q.child name) = .ok ()) :
    Agree (FoundAlike name p q) (d.childFolder? p name) (d.childFolder? q name) := by
  have hfound := FoundAlike.child name p q
  rw [childFolder?, childFolder?, h.openFolder_eq hp hq, (h.child name).stat_eq hp' hq']
  refine (Agree.refl _).bind ?_
  rintro entries _ rfl
  cases Node.find? entries name with
  | none => exact .pure .missed
  | some n =>
    cases n with
    | file bytes => exact .pure .missed
    | folder below => exact .pure hfound
    | link target =>
      simp only
      split
      · exact .pure hfound
      · exact .pure .missed
      · exact .pure .missed
      · exact .error

/-- The system can be asked for the path of a folder and for the paths of all that is below it. -/
structure CanAskBelow (d : Disk) (p : Path) : Prop where
  here : checkPath p = .ok ()
  below : ∀ entries, d.openFolder p = .ok entries → IsAskable p (.folder entries)

theorem IsAskable.canAskBelow {entries : List (Text × Node)} (h : IsAskable p (.folder entries))
    (hopen : d.openFolder p = .ok entries) : d.CanAskBelow p := by
  refine ⟨h.here, fun found hfound => ?_⟩
  obtain rfl := Except.ok.inj (hopen.symm.trans hfound)
  exact h

/-- The system can be asked for all paths that come up when a project is analysed: those below the
folder of all sources and those below the folder where the analysis starts. -/
structure CanAskInProject (d : Disk) (c : Settings) (project : Path) : Prop where
  here : checkPath project = .ok ()
  sources : d.CanAskBelow (project.child c.sourceRootName)
  start : ∀ entry, d.findStart c (project.child c.sourceRootName) = .ok entry → d.CanAskBelow entry

theorem agree_findSources (h : d.Interchangeable p q) (hp : d.CanAskInProject c p)
    (hq : d.CanAskInProject c q) :
    Agree
      (fun source source' =>
        source = p.child c.sourceRootName ∧ source' = q.child c.sourceRootName)
      (d.findSources c p) (d.findSources c q) := by
  have hfound := agree_childFolder? h hp.here hq.here hp.sources.here hq.sources.here
  have hagree : Agree (fun _ _ => True) (d.findSources c p) (d.findSources c q) := by
    refine hfound.mapError.bind fun found found' halike => ?_
    cases halike with
    | found => exact .pure trivial
    | missed => exact .error
  exact hagree.imp fun _ _ hsource hsource' _ =>
    ⟨eq_child_of_findSources hsource, eq_child_of_findSources hsource'⟩

/-- The analysis of a project starts at the same place for two paths that lead to the project. -/
theorem agree_findStart (hd : d.root.HasDistinctNames) (h : d.Interchangeable p q)
    (hp : d.CanAskBelow p) (hq : d.CanAskBelow q) :
    Agree (fun entry entry' => ∃ front, entry = p.below (front ++ [c.entryPointName]) ∧
        entry' = q.below (front ++ [c.entryPointName]))
      (d.findStart c p) (d.findStart c q) := by
  have hopen := h.openFolder_eq hp.here hq.here
  have hsearch : Agree (FoundAlike c.entryPointName p q) (d.search p c.entryPointName)
      (d.search q c.entryPointName) := by
    rw [search, search, hopen]
    cases hentries : d.openFolder q with
    | error fault => exact .error
    | ok entries =>
      exact agree_findBelow h (hasDistinctNames_of_openFolder hd hentries)
        (hp.below entries (hopen.trans hentries)) (hq.below entries hentries)
  refine hsearch.mapError.bind fun found found' hfound => ?_
  cases hfound with
  | found => exact .pure ⟨_, rfl, rfl⟩
  | missed => exact .error

end Disk

variable {d : Disk} {p q : Path}

theorem agree_renamed_analyzePackage (hd : d.root.HasDistinctNames) (c : Settings)
    (h : d.Interchangeable p q) (hp : d.CanAskBelow p) (hq : d.CanAskBelow q) :
    Agree (fun r s => s = r.renamed (d.baseName q)) (analyzePackage d c p).outcome.1
      (analyzePackage d c q).outcome.1 := by
  have hopen := h.openFolder_eq hp.here hq.here
  refine .of_sameValue (sameValue_analyzePackage d c p) (sameValue_analyzePackage d c q) ?_
  rw [Disk.reportOnPackage, Disk.reportOnPackage, hopen]
  cases hentries : d.openFolder q with
  | error fault => exact .error
  | ok entries =>
    exact Disk.agree_renamed_reportOnFolder h (Disk.hasDistinctNames_of_openFolder hd hentries)
      (hp.below entries (hopen.trans hentries)) (hq.below entries hentries)

/-- Where the analysis of a project starts is in folders of the same name for two paths that lead to
the project. -/
theorem agree_findEntryPoint (hd : d.root.HasDistinctNames) (c : Settings)
    (h : d.Interchangeable p q) (hp : d.CanAskInProject c p) (hq : d.CanAskInProject c q) :
    Agree (fun entry entry' => d.Interchangeable entry entry' ∧ d.CanAskBelow entry ∧
        d.CanAskBelow entry' ∧ d.baseName entry = d.baseName entry')
      (findEntryPoint d c p).outcome.1 (findEntryPoint d c q).outcome.1 := by
  rw [outcome_findEntryPoint, outcome_findEntryPoint, entryPointJob, entryPointJob,
    result_fromEntryPoint, result_fromEntryPoint]
  refine Agree.bind ((Disk.agree_findSources h hp hq).bind ?_) fun entry entry' => Agree.pure
  rintro _ _ ⟨rfl, rfl⟩
  have hstart := Disk.agree_findStart (c := c) hd (h.child c.sourceRootName) hp.sources hq.sources
  refine hstart.imp ?_
  rintro entry entry' hentry hentry' ⟨front, rfl, rfl⟩
  refine ⟨(h.child _).below _, hp.start _ hentry, hq.start _ hentry', ?_⟩
  rw [Path.below_concat, Path.below_concat, Disk.baseName_child, Disk.baseName_child]

theorem agree_renamed_analyzeProject (hd : d.root.HasDistinctNames) (c : Settings)
    (h : d.Interchangeable p q) (hp : d.CanAskInProject c p) (hq : d.CanAskInProject c q) :
    Agree (fun r s => s = { r with projectName := d.baseName q }) (analyzeProject d c p).outcome.1
      (analyzeProject d c q).outcome.1 := by
  rw [outcome_analyzeProject, outcome_analyzeProject]
  refine (agree_findEntryPoint hd c h hp hq).bind ?_
  rintro entry entry' ⟨hentries, hentry, hentry', hname⟩
  have hpackages := agree_renamed_analyzePackage hd c hentries hentry hentry'
  have hequal :
      Agree Eq (analyzePackage d c entry).outcome.1 (analyzePackage d c entry').outcome.1 := by
    refine hpackages.imp fun r s hr _ hrenamed => ?_
    rw [hrenamed, ← hname, ← packageName_analyzePackage hr, r.renamed_packageName]
  refine hequal.map ?_
  rintro r _ rfl
  rfl

theorem projectName_analyzeProject {c : Settings} {r : ProjectReport}
    (h : (analyzeProject d c p).outcome.1 = .ok r) : r.projectName = d.baseName p := by
  rw [outcome_analyzeProject] at h
  obtain ⟨entry, _, h⟩ := bind_eq_ok_iff.mp h
  obtain ⟨package, _, rfl⟩ := map_eq_ok_iff.mp h
  rfl

/-- How the reports by two texts for the path of the same folder compare: each is the other under
the name that the text gives the folder. -/
structure ReportsAlike (d : Disk) (c : Settings) (s t : Text) : Prop where
  package : d.CanAskBelow (.ofText s) → d.CanAskBelow (.ofText t) →
    Agree (fun r r' => r' = r.renamed (d.baseName (.ofText t)) ∧
        ((Report.ofPackage r).same (.ofPackage r') = true ↔
          (Disk.EndsUpward (.ofText s) ↔ Disk.EndsUpward (.ofText t))))
      (analyzePackage d c (.ofText s)).outcome.1 (analyzePackage d c (.ofText t)).outcome.1
  project : d.CanAskInProject c (.ofText s) → d.CanAskInProject c (.ofText t) →
    Agree (fun r r' => r' = { r with projectName := d.baseName (.ofText t) } ∧
        ((Report.ofProject r).same (.ofProject r') = true ↔
          (Disk.EndsUpward (.ofText s) ↔ Disk.EndsUpward (.ofText t))))
      (analyzeProject d c (.ofText s)).outcome.1 (analyzeProject d c (.ofText t)).outcome.1

/-- Two texts for the path of the same folder give the same report, but for its name, which is that
of the folder only if the text does not end upward. -/
theorem reportsAlike_and_baseName_iff (hd : d.root.HasDistinctNames)
    (hnames : Disk.HasEntryNames d.root) (c : Settings) {s t : Text} {place : Place}
    (hs : d.LeadsStraightTo (.ofText s) place) (ht : d.LeadsStraightTo (.ofText t) place) :
    ReportsAlike d c s t ∧
      (d.baseName (.ofText s) = Disk.folderName place ↔ ¬ Disk.EndsUpward (.ofText s)) := by
  have h := hs.interchangeable hnames ht
  refine ⟨⟨fun hp hq => ?_, fun hp hq => ?_⟩, hs.baseName_eq_iff hnames⟩
  · refine (agree_renamed_analyzePackage hd c h hp hq).imp ?_
    rintro r _ hr _ rfl
    refine ⟨rfl, ?_⟩
    rw [← hs.baseName_eq_baseName_iff ht hnames, ← packageName_analyzePackage hr]
    exact PackageReport.same_renamed_iff
  · refine (agree_renamed_analyzeProject hd c h hp hq).imp ?_
    rintro r _ hr _ rfl
    refine ⟨rfl, ?_⟩
    rw [← hs.baseName_eq_baseName_iff ht hnames, ← projectName_analyzeProject hr]
    exact ProjectReport.same_renamed_iff

/-- A project with one class. -/
def soloProject : List (Text × Node) :=
  [("src", .folder [("java", .folder [("A.java", .file [])])])]

/-- A system at work in this project. -/
def soloDisk : Disk where
  root := .folder [("work", .folder soloProject)]
  here := ["work"]

theorem leadsStraightTo_soloDisk_here : soloDisk.LeadsStraightTo (.ofText ".") ["work"] := by
  have hnames : (Path.ofText ".").names = [] := by cbv
  refine ⟨by cbv, fun front hfront => ?_⟩
  rw [hnames, List.prefix_nil] at hfront
  subst hfront
  exact ⟨soloProject, by cbv⟩

theorem leadsStraightTo_soloDisk_upward :
    soloDisk.LeadsStraightTo (.ofText "src/..") ["work"] := by
  have hnames : (Path.ofText "src/..").names = [Text.ofString "src", Text.ofString ".."] := by
    cbv
  refine ⟨by cbv, fun front hfront => ?_⟩
  rw [hnames, List.prefix_cons_iff] at hfront
  obtain rfl | ⟨front, rfl, hfront⟩ := hfront
  · exact ⟨soloProject, by cbv⟩
  obtain rfl | ⟨front, rfl, hnil⟩ := List.prefix_cons_iff.mp hfront
  · exact ⟨[("java", .folder [("A.java", .file [])])], by cbv⟩
  · obtain rfl := List.prefix_nil.mp hnil
    exact ⟨soloProject, by cbv⟩

/-- The system can be asked for all of the project if it can be asked for its deepest file. -/
theorem isAskable_soloProject {p : Path} (hproject : Disk.checkPath p = .ok ())
    (hsources : Disk.checkPath (p.child "src") = .ok ())
    (hpackage : Disk.checkPath ((p.child "src").child "java") = .ok ())
    (hclass : Disk.checkPath (((p.child "src").child "java").child "A.java") = .ok ()) :
    Disk.IsAskable p (.folder soloProject) := by
  refine Disk.isAskable_folder hproject ?_
  simp only [soloProject, List.forall_mem_singleton]
  refine Disk.isAskable_folder hsources ?_
  simp only [List.forall_mem_singleton]
  refine Disk.isAskable_folder hpackage ?_
  simp only [List.forall_mem_singleton]
  exact Disk.isAskable_file hclass []

theorem canAskInProject_soloProject {p : Path} (hn : (Node.folder soloProject).HasDistinctNames)
    (h : Disk.IsAskable p (.folder soloProject))
    (hsources : soloDisk.openFolder (p.child "src") =
      .ok [("java", .folder [("A.java", .file [])])])
    (hpackage : soloDisk.openFolder ((p.child "src").child "java") = .ok [("A.java", .file [])])
    (hstart : soloDisk.findStart {} (p.child "src") = .ok ((p.child "src").child "java")) :
    soloDisk.CanAskInProject {} p := by
  have hbelow := h.entry hn List.mem_cons_self
  have hentry := hbelow.entry (hn.entry List.mem_cons_self) List.mem_cons_self
  refine ⟨h.here, hbelow.canAskBelow hsources, fun entry hfound => ?_⟩
  obtain rfl := Except.ok.inj (hstart.symm.trans hfound)
  exact hentry.canAskBelow hpackage

theorem reportsAlike_and_baseName_iff_soloDisk :
    soloDisk.root.HasDistinctNames ∧ Disk.HasEntryNames soloDisk.root ∧
    soloDisk.LeadsStraightTo (.ofText ".") ["work"] ∧
    soloDisk.LeadsStraightTo (.ofText "src/..") ["work"] ∧
    soloDisk.CanAskBelow (.ofText ".") ∧ soloDisk.CanAskBelow (.ofText "src/..") ∧
    soloDisk.CanAskInProject {} (.ofText ".") ∧ soloDisk.CanAskInProject {} (.ofText "src/..") ∧
    ReportsAlike soloDisk {} "." "src/.." ∧
    (soloDisk.baseName (.ofText ".") = Disk.folderName ["work"] ↔
      ¬ Disk.EndsUpward (.ofText ".")) := by
  have hn : (Node.folder soloProject).HasDistinctNames := by
    simp only [soloProject, Node.hasDistinctNames_folder_iff, List.forall_mem_cons,
      List.not_mem_nil, false_implies, implies_true, Node.hasDistinctNames_file, and_true]
    decide
  have hd : soloDisk.root.HasDistinctNames := by
    rw [soloDisk, Node.hasDistinctNames_folder_iff, List.forall_mem_singleton]
    exact ⟨by decide, hn⟩
  have hnames : Disk.HasEntryNames soloDisk.root := by
    refine Disk.hasEntryNames_folder ?_
    simp only [soloProject, List.forall_mem_singleton]
    refine ⟨by decide, Disk.hasEntryNames_folder ?_⟩
    simp only [List.forall_mem_singleton]
    refine ⟨by decide, Disk.hasEntryNames_folder ?_⟩
    simp only [List.forall_mem_singleton]
    refine ⟨by decide, Disk.hasEntryNames_folder ?_⟩
    simp only [List.forall_mem_singleton]
    exact ⟨by decide, Disk.hasEntryNames_file []⟩
  have haskHere : Disk.IsAskable (.ofText ".") (.folder soloProject) :=
    isAskable_soloProject (by cbv) (by cbv) (by cbv) (by cbv)
  have haskUpward : Disk.IsAskable (.ofText "src/..") (.folder soloProject) :=
    isAskable_soloProject (by cbv) (by cbv) (by cbv) (by cbv)
  have hs := leadsStraightTo_soloDisk_here
  have ht := leadsStraightTo_soloDisk_upward
  obtain ⟨halike, hname⟩ := reportsAlike_and_baseName_iff hd hnames {} hs ht
  exact ⟨hd, hnames, hs, ht, haskHere.canAskBelow (by cbv), haskUpward.canAskBelow (by cbv),
    canAskInProject_soloProject hn haskHere (by cbv) (by cbv) (by cbv),
    canAskInProject_soloProject hn haskUpward (by cbv) (by cbv) (by cbv), halike, hname⟩

/-- The report on this project as a package, under the given name. -/
def soloReport (name : Text) : PackageReport :=
  .mk name []
    [.mk "src" []
      [.mk "java"
        [{ className := "A", packageName := "java", declaredPackage := none,
           dependencies := .empty }]
        []]]

/-- Two texts for the path of the same folder can give different reports. -/
theorem not_same_soloReport :
    soloDisk.LeadsStraightTo (.ofText ".") ["work"] ∧
    soloDisk.LeadsStraightTo (.ofText "src/..") ["work"] ∧
    (analyzePackage soloDisk {} (.ofText ".")).outcome.1 = .ok (soloReport "work") ∧
    (analyzePackage soloDisk {} (.ofText "src/..")).outcome.1 = .ok (soloReport "..") ∧
    (Report.ofPackage (soloReport "work")).same (.ofPackage (soloReport "..")) = false := by
  refine ⟨leadsStraightTo_soloDisk_here, leadsStraightTo_soloDisk_upward, ?_, ?_, ?_⟩
  · cbv
  · cbv
  · cbv

end TypeAtlas
