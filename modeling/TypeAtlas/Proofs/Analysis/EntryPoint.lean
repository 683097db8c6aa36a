import TypeAtlas.Proofs.Analysis.DistinctNames
import TypeAtlas.Proofs.Files.Reordering

namespace TypeAtlas

namespace Disk

/-- A node at a path is a folder, or a link that leads to one. -/
inductive LeadsToFolder (d : Disk) (path : Path) : Node → Prop
  | folder {entries : List (Text × Node)} : LeadsToFolder d path (.folder entries)
  | link {target : Text} {entries : List (Text × Node)} :
      d.stat path = .ok (.folder entries) → LeadsToFolder d path (.link target)

/-- In a node at a path there is a folder at the given place, or a link to one. None of the names on
the way there is a link. -/
def HasFolderAt (d : Disk) (path : Path) (n : Node) (place : Place) : Prop :=
  ∃ m, n.at? place = some m ∧ d.LeadsToFolder (path.below place) m

/-- In the folder at the place `front` there is a folder of the given name, or a link to one, and no
folder on the way there has that name. -/
structure IsOutermost (d : Disk) (path : Path) (n : Node) (name : Text) (front : Place) : Prop where
  hasFolder : d.HasFolderAt path n (front ++ [name])
  not_mem : name ∉ front

/-- The system can be asked for the path of every folder in and below a node. -/
def IsListable (path : Path) (n : Node) : Prop :=
  ∀ place entries, n.at? place = some (.folder entries) → checkPath (path.below place) = .ok ()

theorem isListable_iff {path : Path} {n : Node} (hn : n.HasDistinctNames) :
    IsListable path n ↔ ∀ f ∈ n.folders, checkPath (path.below f.1) = .ok () := by
  constructor
  · rintro h ⟨place, entries⟩ hf
    exact h place entries ((Node.mem_folders_iff hn).mp hf)
  · intro h place entries hat
    exact h (place, entries) ((Node.mem_folders_iff hn).mpr hat)

/-- What a search for a folder of the given name in and below a node at a path can come to. -/
inductive Searched (d : Disk) (name : Text) (path : Path) (n : Node) :
    Except WalkFault (Option Path) → Prop
  | found {front : Place} : d.IsOutermost path n name front →
      Searched d name path n (.ok (some (path.below (front ++ [name]))))
  | missing : (∀ front, ¬ d.HasFolderAt path n (front ++ [name])) →
      Searched d name path n (.ok none)
  | stuck {place : Place} {entries : List (Text × Node)} {fault : FileFault} :
      n.at? place = some (.folder entries) → checkPath (path.below place) = .error fault →
        Searched d name path n (.error ⟨path.below place, fault⟩)

variable {d : Disk} {name : Text} {path : Path}

theorem isFolderEntry_iff {folder : Path} {n : Node} :
    d.isFolderEntry folder name n = true ↔ d.LeadsToFolder (folder.child name) n := by
  constructor
  · intro h
    cases n with
    | folder entries => exact .folder
    | file bytes => cases h
    | link target =>
      rw [isFolderEntry, isFolder] at h
      split at h
      · rename_i entries hstat
        exact .link hstat
      · cases h
  · rintro (_ | ⟨hstat⟩)
    · rfl
    · rw [isFolderEntry, isFolder, hstat]

theorem hasFolderAt_singleton_iff {entries : List (Text × Node)} :
    d.HasFolderAt path (.folder entries) [name] ↔
      (Node.find? entries name).any (d.isFolderEntry path name) = true := by
  rw [HasFolderAt, Option.any_eq_true, Path.below_cons, Path.below_nil, Node.at?_cons]
  simp only [isFolderEntry_iff]
  cases Node.find? entries name with
  | none => simp
  | some m => simp [Node.at?]

theorem hasFolderAt_cons_iff {entries : List (Text × Node)} (hnodup : (entries.map (·.1)).Nodup)
    {child : Text} {place : Place} :
    d.HasFolderAt path (.folder entries) (child :: place) ↔
      ∃ n, (child, n) ∈ entries ∧ d.HasFolderAt (path.child child) n place := by
  simp only [HasFolderAt, Node.at?_cons_eq_some_iff hnodup, Path.below_cons]
  constructor
  · rintro ⟨m, ⟨n, hn, hm⟩, hfolder⟩
    exact ⟨n, hn, m, hm, hfolder⟩
  · rintro ⟨n, hn, m, hm, hfolder⟩
    exact ⟨m, ⟨n, hn, hm⟩, hfolder⟩

/-- A search goes through the entries of a folder until it comes to one in or below which it does
not miss what it looks for. -/
theorem findAmong_cases (d : Disk) (name : Text) (path : Path) (entries : List (Text × Node)) :
    (∃ child n, (child, n) ∈ entries ∧ d.findBelow name (path.child child) n ≠ .ok none ∧
        d.findAmong name path entries = d.findBelow name (path.child child) n) ∨
      (∀ child n, (child, n) ∈ entries → d.findBelow name (path.child child) n = .ok none) ∧
        d.findAmong name path entries = .ok none := by
  induction entries with
  | nil => exact .inr ⟨by simp, by rw [findAmong]; rfl⟩
  | cons entry entries ih =>
    obtain ⟨first, m⟩ := entry
    rw [findAmong]
    cases hfirst : d.findBelow name (path.child first) m with
    | error e => exact .inl ⟨first, m, List.mem_cons_self, by simp [hfirst], hfirst.symm⟩
    | ok result =>
      cases result with
      | some found => exact .inl ⟨first, m, List.mem_cons_self, by simp [hfirst], hfirst.symm⟩
      | none =>
        rw [ok_bind]
        obtain ⟨child, n, hn, hne, heq⟩ | ⟨hall, hnone⟩ := ih
        · exact .inl ⟨child, n, List.mem_cons_of_mem _ hn, hne, heq⟩
        · refine .inr ⟨?_, hnone⟩
          intro child n hn
          obtain heq | hrest := List.mem_cons.mp hn
          · obtain ⟨rfl, rfl⟩ := Prod.mk.inj heq
            exact hfirst
          · exact hall child n hrest

/-- What a search in and below an entry of a folder comes to is what it comes to in the folder, if
the entry does not itself have the name it looks for. -/
theorem Searched.inside {entries : List (Text × Node)} (hnodup : (entries.map (·.1)).Nodup)
    {child : Text} {n : Node} (hn : (child, n) ∈ entries) {r : Except WalkFault (Option Path)}
    (h : d.Searched name (path.child child) n r) (hr : r ≠ .ok none)
    (hname : ∀ below, n = .folder below → child ≠ name) :
    d.Searched name path (.folder entries) r := by
  cases h with
  | missing => exact absurd rfl hr
  | @found front hfound =>
    obtain ⟨hfolder, hfront⟩ := hfound
    obtain ⟨below, hbelow⟩ : ∃ below, n = .folder below := by
      obtain ⟨m, hm, _⟩ := hfolder
      cases n with
      | folder below => exact ⟨below, rfl⟩
      | file bytes => cases front <;> cases hm
      | link target => cases front <;> cases hm
    rw [← Path.below_cons, ← List.cons_append]
    refine .found ⟨(hasFolderAt_cons_iff hnodup).mpr ⟨n, hn, hfolder⟩, ?_⟩
    rw [List.mem_cons, not_or]
    exact ⟨(hname below hbelow).symm, hfront⟩
  | @stuck place below fault hat hcheck =>
    rw [← Path.below_cons] at hcheck ⊢
    exact .stuck ((Node.at?_cons_eq_some_iff hnodup).mpr ⟨n, hn, hat⟩) hcheck

/-- A search finds an outermost folder of the given name if there is any, unless it comes to one
that cannot be listed. -/
theorem searched_findBelow {n : Node} (hn : n.HasDistinctNames) :
    d.Searched name path n (d.findBelow name path n) := by
  induction n using Node.induction_entries generalizing path with
  | file bytes =>
    rw [findBelow]
    · refine .missing ?_
      rintro (_ | _) ⟨m, hm, _⟩ <;> cases hm
    · simp
  | link target =>
    rw [findBelow]
    · refine .missing ?_
      rintro (_ | _) ⟨m, hm, _⟩ <;> cases hm
    · simp
  | folder entries ih =>
    rw [findBelow]
    cases hcheck : checkPath path with
    | error fault =>
      have hat : (Node.folder entries).at? [] = some (.folder entries) := rfl
      rw [← Path.below_nil path] at hcheck
      have hstuck : d.Searched name path (.folder entries) (.error ⟨path.below [], fault⟩) :=
        .stuck hat hcheck
      rwa [Path.below_nil] at hstuck
    | ok _ =>
      rw [mapError_ok, ok_bind]
      split
      · rename_i hany
        have hfound : d.IsOutermost path (.folder entries) name [] :=
          ⟨hasFolderAt_singleton_iff.mpr hany, List.not_mem_nil⟩
        have hsearched := Searched.found hfound
        rwa [List.nil_append, Path.below_cons, Path.below_nil] at hsearched
      · rename_i hany
        obtain ⟨child, m, hm, hne, heq⟩ | ⟨hall, hnone⟩ := d.findAmong_cases name path entries
        · rw [heq]
          refine (ih child m hm (hn.entry hm)).inside hn.nodup hm hne ?_
          rintro below rfl rfl
          apply hany
          rw [(Node.find?_eq_some_iff hn.nodup).mpr hm]
          rfl
        · rw [hnone]
          refine .missing ?_
          rintro (_ | ⟨child, front⟩) hfolder
          · exact hany (hasFolderAt_singleton_iff.mp hfolder)
          · rw [List.cons_append, hasFolderAt_cons_iff hn.nodup] at hfolder
            obtain ⟨m, hm, hfolder⟩ := hfolder
            have hsearched := @ih child m hm (path.child child) (hn.entry hm)
            rw [hall child m hm] at hsearched
            cases hsearched with
            | missing hmissing => exact hmissing front hfolder

/-- How the folder in which an analysis starts is found below `root`, the folder with the given
entries. -/
structure FindsStart (d : Disk) (c : Settings) (root : Path) (entries : List (Text × Node)) :
    Prop where
  /-- What is found is an outermost folder of the name that is looked for. -/
  found : ∀ p, d.findStart c root = .ok p →
    ∃ front, d.IsOutermost root (.folder entries) c.entryPointName front ∧
      p = root.below (front ++ [c.entryPointName])
  /-- Nothing is found only where there is no such folder. -/
  missing : d.findStart c root = .error (.folderNotFound root c.entryPointName) ↔
    ∀ front, ¬ d.HasFolderAt root (.folder entries) (front ++ [c.entryPointName])
  /-- The search does not fail in another way. -/
  answered : (∃ p, d.findStart c root = .ok p) ∨
    d.findStart c root = .error (.folderNotFound root c.entryPointName)
  /-- Where there is one outermost folder, the order in which entries are listed does not matter. -/
  steady : ∀ d', d.Reorders d' →
    (∃! front, d.IsOutermost root (.folder entries) c.entryPointName front) →
      d'.findStart c root = d.findStart c root

variable {c : Settings} {root : Path} {entries : List (Text × Node)}

/-- What a search for the folder in which an analysis starts can come to. -/
theorem findStart_cases (c : Settings) (hd : d.root.HasDistinctNames)
    (hopen : d.openFolder root = .ok entries) :
    (∃ front, d.IsOutermost root (.folder entries) c.entryPointName front ∧
        d.findStart c root = .ok (root.below (front ++ [c.entryPointName]))) ∨
      (∀ front, ¬ d.HasFolderAt root (.folder entries) (front ++ [c.entryPointName])) ∧
        d.findStart c root = .error (.folderNotFound root c.entryPointName) ∨
      ∃ place below fault, (Node.folder entries).at? place = some (.folder below) ∧
        checkPath (root.below place) = .error fault ∧
        d.findStart c root = .error (.cannotWalk (root.below place) fault) := by
  have hnames := hasDistinctNames_of_openFolder hd hopen
  have hsearched : d.Searched c.entryPointName root (.folder entries)
      (d.search root c.entryPointName) := by
    rw [search, hopen]
    exact searched_findBelow hnames
  rw [findStart]
  generalize d.search root c.entryPointName = r at hsearched
  cases hsearched with
  | found hfound => exact .inl ⟨_, hfound, rfl⟩
  | missing hmissing => exact .inr (.inl ⟨hmissing, rfl⟩)
  | stuck hat hcheck => exact .inr (.inr ⟨_, _, _, hat, hcheck, rfl⟩)

/-- Where every folder can be listed, a search finds an outermost one, or there is none. -/
theorem findStart_cases_of_isListable (c : Settings) (hd : d.root.HasDistinctNames)
    (hopen : d.openFolder root = .ok entries) (hlist : IsListable root (.folder entries)) :
    (∃ front, d.IsOutermost root (.folder entries) c.entryPointName front ∧
        d.findStart c root = .ok (root.below (front ++ [c.entryPointName]))) ∨
      (∀ front, ¬ d.HasFolderAt root (.folder entries) (front ++ [c.entryPointName])) ∧
        d.findStart c root = .error (.folderNotFound root c.entryPointName) := by
  obtain hfound | hmissing | ⟨place, below, fault, hat, hcheck, _⟩ := findStart_cases c hd hopen
  · exact .inl hfound
  · exact .inr hmissing
  · cases (hlist place below hat).symm.trans hcheck

theorem LeadsToFolder.of_shape {d' : Disk} {n n' : Node} (h : d.LeadsToFolder path n)
    (hn : n'.shape = n.shape)
    (hstat : (d'.stat path).map Node.shape = (d.stat path).map Node.shape) :
    d'.LeadsToFolder path n' := by
  cases h with
  | folder =>
    obtain ⟨below, rfl⟩ := Node.shape_eq_folder_iff.mp hn
    exact .folder
  | link hfolder =>
    rw [hfolder] at hstat
    obtain ⟨m, hm, hshape⟩ := map_eq_ok_iff.mp hstat
    obtain ⟨below, rfl⟩ := Node.shape_eq_folder_iff.mp hshape
    rw [Node.shape_eq_link_iff.mp hn]
    exact .link hm

/-- Whether there is a folder at a place does not depend on the order in which entries are listed.
-/
theorem Reorders.hasFolderAt_iff {d' : Disk} (h : d.Reorders d') (hd : d.root.HasDistinctNames)
    {n n' : Node} (hshape : ∀ place, (n'.at? place).map Node.shape = (n.at? place).map Node.shape)
    (path : Path) (place : Place) : d'.HasFolderAt path n' place ↔ d.HasFolderAt path n place := by
  have hstat := h.shape_stat hd (path.below place)
  constructor
  · rintro ⟨m', hm', hfolder⟩
    obtain ⟨m, hm, hsame⟩ := Node.exists_of_map_shape (hshape place).symm hm'
    exact ⟨m, hm, hfolder.of_shape hsame hstat.symm⟩
  · rintro ⟨m, hm, hfolder⟩
    obtain ⟨m', hm', hsame⟩ := Node.exists_of_map_shape (hshape place) hm
    exact ⟨m', hm', hfolder.of_shape hsame hstat⟩

/-- Where every folder can be listed, a search for the folder in which an analysis starts is
complete, finds an outermost one, and depends on no order unless it has a choice. -/
theorem findsStart (hd : d.root.HasDistinctNames) (hopen : d.openFolder root = .ok entries)
    (hlist : IsListable root (.folder entries)) : d.FindsStart c root entries := by
  have hcases := findStart_cases_of_isListable c hd hopen hlist
  refine ⟨?_, ?_, ?_, ?_⟩
  · intro p hp
    obtain ⟨front, hfront, hfound⟩ | ⟨_, hmissing⟩ := hcases
    · exact ⟨front, hfront, Except.ok.inj (hp.symm.trans hfound)⟩
    · cases hp.symm.trans hmissing
  · constructor
    · intro hmissing
      obtain ⟨_, _, hfound⟩ | ⟨hnone, _⟩ := hcases
      · cases hmissing.symm.trans hfound
      · exact hnone
    · intro hnone
      obtain ⟨front, hfront, _⟩ | ⟨_, hmissing⟩ := hcases
      · exact absurd hfront.hasFolder (hnone front)
      · exact hmissing
  · obtain ⟨_, _, hfound⟩ | ⟨_, hmissing⟩ := hcases
    · exact .inl ⟨_, hfound⟩
    · exact .inr hmissing
  · rintro d' hreorders ⟨front, hfront, honly⟩
    obtain ⟨hnames', hroot⟩ := hreorders.hasDistinctNames_and_shape hd
    obtain ⟨entries', hopen', hshape⟩ := hreorders.exists_openFolder hd hopen
    have hlist' : IsListable root (.folder entries') := by
      intro place below hbelow
      obtain ⟨below', hbelow'⟩ := Node.exists_folder_of_map_shape (hshape place).symm hbelow
      exact hlist place below' hbelow'
    have hiff := hreorders.hasFolderAt_iff hd hshape root
    obtain ⟨front₁, hfront₁, hfound₁⟩ | ⟨hnone, _⟩ := hcases
    · obtain ⟨front₂, ⟨hfolder₂, hmem₂⟩, hfound₂⟩ | ⟨hnone, _⟩ :=
        findStart_cases_of_isListable c hnames' hopen' hlist'
      · rw [hfound₁, hfound₂, honly front₁ hfront₁, honly front₂ ⟨(hiff _).mp hfolder₂, hmem₂⟩]
      · exact absurd ((hiff _).mpr hfront.hasFolder) (hnone front)
    · exact absurd hfront.hasFolder (hnone front)

/-- A folder in which an analysis starts is an outermost one of its name, even where not every
folder can be listed. -/
theorem exists_isOutermost_of_findStart (hd : d.root.HasDistinctNames) {entry : Path}
    (h : d.findStart c root = .ok entry) :
    ∃ entries front, d.openFolder root = .ok entries ∧
      d.IsOutermost root (.folder entries) c.entryPointName front ∧
      entry = root.below (front ++ [c.entryPointName]) := by
  cases hopen : d.openFolder root with
  | error fault =>
    rw [findStart, search, hopen] at h
    cases h
  | ok entries =>
    obtain ⟨front, hfront, hfound⟩ | ⟨_, hmissing⟩ | ⟨place, _, fault, _, _, hstuck⟩ :=
      findStart_cases c hd hopen
    · exact ⟨entries, front, rfl, hfront, Except.ok.inj (h.symm.trans hfound)⟩
    · cases h.symm.trans hmissing
    · cases h.symm.trans hstuck

theorem eq_child_of_childFolder? {parent found : Path}
    (h : d.childFolder? parent name = .ok (some found)) : found = parent.child name := by
  rw [childFolder?] at h
  obtain ⟨es, _, h⟩ := bind_eq_ok_iff.mp h
  split at h
  · exact (Option.some.inj (Except.ok.inj h)).symm
  · split at h
    · exact (Option.some.inj (Except.ok.inj h)).symm
    · cases h
    · cases h
    · cases h
  · cases h

theorem eq_child_of_findSources {project source : Path}
    (h : d.findSources c project = .ok source) : source = project.child c.sourceRootName := by
  rw [findSources] at h
  obtain ⟨found, hfound, h⟩ := bind_eq_ok_iff.mp h
  cases found with
  | none => cases h
  | some other =>
    obtain rfl := Except.ok.inj h
    cases hchild : d.childFolder? project c.sourceRootName with
    | error fault =>
      rw [hchild] at hfound
      cases hfound
    | ok found =>
      rw [hchild] at hfound
      obtain rfl := Except.ok.inj hfound
      exact eq_child_of_childFolder? hchild

end Disk

/-- The report on a project is on one package, that of an outermost folder of the name of the entry
point below the folder of all sources. -/
structure ProjectReport.IsFromEntryPoint (d : Disk) (c : Settings) (project : Path)
    (r : ProjectReport) (package : PackageReport) (entries : List (Text × Node)) (front : Place) :
    Prop where
  opened : d.openFolder (project.child c.sourceRootName) = .ok entries
  outermost :
    d.IsOutermost (project.child c.sourceRootName) (.folder entries) c.entryPointName front
  packages : r.packages = [package]
  name : package.packageName = c.entryPointName
  analyzed : (analyzePackage d c ((project.child c.sourceRootName).below
    (front ++ [c.entryPointName]))).outcome.1 = .ok package

theorem exists_isFromEntryPoint {d : Disk} (hd : d.root.HasDistinctNames) {c : Settings}
    {project : Path} {r : ProjectReport} (h : (analyzeProject d c project).outcome.1 = .ok r) :
    ∃ package entries front, r.IsFromEntryPoint d c project package entries front := by
  rw [outcome_analyzeProject, outcome_findEntryPoint] at h
  obtain ⟨entry, hentry, h⟩ := bind_eq_ok_iff.mp h
  obtain ⟨package, hpackage, rfl⟩ := map_eq_ok_iff.mp h
  rw [entryPointJob, result_fromEntryPoint] at hentry
  obtain ⟨start, hstart, hend⟩ := bind_eq_ok_iff.mp hentry
  obtain rfl := Except.ok.inj hend
  obtain ⟨source, hsource, hstart⟩ := bind_eq_ok_iff.mp hstart
  obtain rfl := Disk.eq_child_of_findSources hsource
  obtain ⟨entries, front, hopen, hfront, rfl⟩ := Disk.exists_isOutermost_of_findStart hd hstart
  refine ⟨package, entries, front, hopen, hfront, rfl, ?_, hpackage⟩
  rw [packageName_analyzePackage hpackage, Path.below_concat, Disk.baseName_child]

/-- The search for the folder in which an analysis starts misses none, finds an outermost one, and
has one answer for all orders in which entries may be listed if it has no choice. The analysis of a
project reports on what it finds. -/
theorem findsStart_and_isFromEntryPoint {d : Disk} (hd : d.root.HasDistinctNames) (c : Settings) :
    (∀ root entries, d.openFolder root = .ok entries → Disk.IsListable root (.folder entries) →
        d.FindsStart c root entries) ∧
      ∀ project r, (analyzeProject d c project).outcome.1 = .ok r →
        ∃ package entries front, r.IsFromEntryPoint d c project package entries front :=
  ⟨fun _ _ hopen hlist => Disk.findsStart hd hopen hlist,
    fun _ _ hproject => exists_isFromEntryPoint hd hproject⟩

/-- A folder with a folder of the name of the entry point in another one, and a link that leads in a
circle. -/
def nestedSources : List (Text × Node) :=
  [("java", .link "java"),
    ("main", .folder [("java", .folder [("A.java", .file []), ("java", .folder [])])])]

/-- A project with such sources. -/
def nestedDisk : Disk where
  root := .folder [("src", .folder nestedSources)]
  here := []

def nestedReport : ProjectReport where
  projectName := []
  packages :=
    [.mk "java"
      [{ className := "A", packageName := "java", declaredPackage := none,
         dependencies := .empty }]
      [.mk "java" [] []]]

theorem isListable_nestedSources (hn : (Node.folder nestedSources).HasDistinctNames) :
    Disk.IsListable (.ofText "src") (.folder nestedSources) := by
  rw [Disk.isListable_iff hn]
  simp only [nestedSources, Node.folders, Node.foldersAmong, List.map_cons, List.map_nil,
    List.nil_append, List.append_nil, List.forall_mem_cons, List.not_mem_nil, false_implies,
    implies_true, and_true]
  refine ⟨?_, ?_, ?_, ?_⟩ <;> cbv

theorem findsStart_and_isFromEntryPoint_nestedDisk :
    nestedDisk.root.HasDistinctNames ∧
    nestedDisk.openFolder (.ofText "src") = .ok nestedSources ∧
    Disk.IsListable (.ofText "src") (.folder nestedSources) ∧
    nestedDisk.FindsStart {} (.ofText "src") nestedSources ∧
    (analyzeProject nestedDisk {} (.ofText ".")).outcome.1 = .ok nestedReport ∧
    ∃ package entries front,
      nestedReport.IsFromEntryPoint nestedDisk {} (.ofText ".") package entries front := by
  have hd : nestedDisk.root.HasDistinctNames := by
    simp only [nestedDisk, nestedSources, Node.hasDistinctNames_folder_iff, List.forall_mem_cons,
      List.not_mem_nil, false_implies, implies_true, Node.hasDistinctNames_file,
      Node.hasDistinctNames_link, and_true, true_and]
    decide
  have hopen : nestedDisk.openFolder (.ofText "src") = .ok nestedSources := by cbv
  have hlist := isListable_nestedSources (Disk.hasDistinctNames_of_openFolder hd hopen)
  have hreport : (analyzeProject nestedDisk {} (.ofText ".")).outcome.1 = .ok nestedReport := by cbv
  obtain ⟨hsearch, hproject⟩ := findsStart_and_isFromEntryPoint hd {}
  exact ⟨hd, hopen, hlist, hsearch _ _ hopen hlist, hreport, hproject _ _ hreport⟩

end TypeAtlas
