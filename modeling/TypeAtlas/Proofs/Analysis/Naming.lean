import TypeAtlas.Proofs.Agreement
import TypeAtlas.Proofs.Analysis.DistinctNames
import TypeAtlas.Proofs.Java.Prefixes

namespace TypeAtlas

/-- The settings that say how classes and dependencies are named: the package of a file that declares
none, and what the names start with that are left out. -/
structure Naming where
  defaultPackage : Text
  implicitPrefix : Text
  deriving DecidableEq, Repr

/-- The settings with another naming. -/
def Settings.named (c : Settings) (n : Naming) : Settings :=
  { c with defaultPackage := n.defaultPackage, implicitPrefix := n.implicitPrefix }

/-- The reports `r` and `s` on one file under the namings `n` and `m` differ only where they should:
in the package of a file that declares none, and in the names that are left out. -/
structure ClassReport.DiffersInNaming (n m : Naming) (r s : ClassReport) : Prop where
  className : r.className = s.className
  declaredPackage : r.declaredPackage = s.declaredPackage
  packageName : r.packageName = r.declaredPackage.getD n.defaultPackage ∧
    s.packageName = s.declaredPackage.getD m.defaultPackage
  /-- Where the second naming leaves nothing out, the first has all its names but those it leaves
  out. -/
  filtered : m.implicitPrefix = [] → ∀ name, name ∈ r.dependencies ↔
    name ∈ s.dependencies ∧ (n.implicitPrefix = [] ∨ ¬ n.implicitPrefix <+: name)
  /-- A longer prefix leaves out no more. -/
  added : n.implicitPrefix ≠ [] → n.implicitPrefix <+: m.implicitPrefix →
    ∀ name ∈ r.dependencies, name ∈ s.dependencies

/-- Two reports match if they have the same name, and their classes and their subpackages, each of
them counted once, match one by one. -/
inductive PackageReport.Matches (R : ClassReport → ClassReport → Prop) :
    PackageReport → PackageReport → Prop
  | mk {r s : PackageReport} :
      r.packageName = s.packageName →
        List.Forall₂ R (distinctClasses r.classes) (distinctClasses s.classes) →
          List.Forall₂ (Matches R) (distinct r.subpackages) (distinct s.subpackages) →
            Matches R r s

/-- Two reports on projects match if they have the same name and their packages match. -/
structure ProjectReport.Matches (R : ClassReport → ClassReport → Prop) (r s : ProjectReport) :
    Prop where
  projectName : r.projectName = s.projectName
  packages : List.Forall₂ (PackageReport.Matches R) (PackageReport.distinct r.packages)
    (PackageReport.distinct s.packages)

/-- What a file depends on under one prefix goes with what it does under another. -/
theorem ClassReport.differsInNaming_ofDependencies (c : Settings) (n m : Naming) (path : Path)
    {deps : Java.Dependencies} (hpackage : deps.declaredPackage ≠ some []) :
    DiffersInNaming n m
      (.ofDependencies (c.named n) path
        { deps with names := deps.names.filter (!Java.isImplied n.implicitPrefix ·) })
      (.ofDependencies (c.named m) path
        { deps with names := deps.names.filter (!Java.isImplied m.implicitPrefix ·) }) := by
  have hdeclared : deps.declaredPackage.filter (· ≠ []) = deps.declaredPackage := by
    cases hname : deps.declaredPackage with
    | none => rfl
    | some name =>
      have hne : name ≠ [] := fun heq => hpackage (heq ▸ hname)
      simp [hne]
  have hmem (p name : Text) : name ∈ deps.names.filter (!Java.isImplied p ·) ↔
      name ∈ deps.names ∧ (p = [] ∨ ¬ p <+: name) := by
    rw [NameSet.mem_filter, Bool.not_eq_true', Java.Tree.isImplied_eq_false_iff]
  constructor
  · rfl
  · rfl
  · simp only [ofDependencies, hdeclared]
    exact ⟨rfl, rfl⟩
  · intro hempty name
    simp only [ofDependencies, hmem, hempty, true_or, and_true]
  · intro hne hstart name
    simp only [ofDependencies, hmem]
    rintro ⟨hname, hexplicit⟩
    exact ⟨hname, .inr fun hlonger => hexplicit.resolve_left hne (hstart.trans hlonger)⟩

namespace Disk

variable (d : Disk) (c : Settings) (n m : Naming)

theorem agree_reportOnClass (path : Path) :
    Agree (ClassReport.DiffersInNaming n m) (d.reportOnClass (c.named n) path)
      (d.reportOnClass (c.named m) path) := by
  refine (Agree.refl (d.readSource path)).bind ?_
  rintro source _ rfl
  obtain ⟨fault, hfault⟩ | ⟨deps, hpackage, hdeps⟩ := Java.extract_prefix_cases source
  · simp only [reportOnSource, hfault]
    exact .error
  · simp only [reportOnSource, hdeps]
    exact .ok (ClassReport.differsInNaming_ofDependencies c n m path hpackage)

theorem agree_reportOnClasses (folder : Path) (names : List Text) :
    Agree (List.Forall₂ (ClassReport.DiffersInNaming n m))
      (d.reportOnClasses (c.named n) folder names)
      (d.reportOnClasses (c.named m) folder names) := by
  rw [reportOnClasses_eq_mapM, reportOnClasses_eq_mapM]
  exact .mapM fun name _ => d.agree_reportOnClass c n m (folder.child name)

/-- No two entries of a folder have the same name, so that no class and no package of it disappears
when those that are equal are counted once. -/
theorem agree_reportOnFolder (path : Path) (entries : List (Text × Node))
    (hd : (Node.folder entries).HasDistinctNames) :
    Agree (PackageReport.Matches (ClassReport.DiffersInNaming n m))
      (d.reportOnFolder (c.named n) path (.folder entries))
      (d.reportOnFolder (c.named m) path (.folder entries)) := by
  have hsubfolders : Agree
      (List.Forall₂ (PackageReport.Matches (ClassReport.DiffersInNaming n m)))
      (d.reportOnSubfolders (c.named n) path entries)
      (d.reportOnSubfolders (c.named m) path entries) := by
    rw [reportOnSubfolders_eq_mapM, reportOnSubfolders_eq_mapM]
    refine .mapM fun f hf => ?_
    have hlt := Node.sizeOf_lt_of_mem_subfolders hf
    exact agree_reportOnFolder (path.child f.1) f.2 (hd.entry (Node.mem_subfolders_iff.mp hf))
  have hlists : Agree (fun r s : PackageReport => r.packageName = s.packageName ∧
        List.Forall₂ (ClassReport.DiffersInNaming n m) r.classes s.classes ∧
        List.Forall₂ (PackageReport.Matches (ClassReport.DiffersInNaming n m))
          r.subpackages s.subpackages)
      (d.reportOnFolder (c.named n) path (.folder entries))
      (d.reportOnFolder (c.named m) path (.folder entries)) := by
    have hlisting : d.listEntries (c.named n) path entries =
        d.listEntries (c.named m) path entries := rfl
    rw [reportOnFolder, reportOnFolder, hlisting]
    refine (Agree.refl _).bind ?_
    rintro listing _ rfl
    refine (d.agree_reportOnClasses c n m path listing.sources).bind fun rs ss hclasses => ?_
    exact hsubfolders.bind fun ps qs hpackages => .pure ⟨rfl, hclasses, hpackages⟩
  refine hlists.imp fun r s hr hs ⟨hname, hclasses, hpackages⟩ => ?_
  obtain ⟨hrclasses, hrpackages⟩ := distinct_of_reportOnFolder hd.nodup hr
  obtain ⟨hsclasses, hspackages⟩ := distinct_of_reportOnFolder hd.nodup hs
  refine .mk hname ?_ ?_
  · rwa [hrclasses, hsclasses]
  · rwa [hrpackages, hspackages]
termination_by sizeOf entries

theorem agree_reportOnPackage (hd : d.root.HasDistinctNames) (path : Path) :
    Agree (PackageReport.Matches (ClassReport.DiffersInNaming n m))
      (d.reportOnPackage (c.named n) path) (d.reportOnPackage (c.named m) path) := by
  cases hopen : d.openFolder path with
  | error e =>
    rw [reportOnPackage, reportOnPackage, hopen]
    exact .error
  | ok entries =>
    rw [reportOnPackage, reportOnPackage, hopen]
    exact d.agree_reportOnFolder c n m path entries (hasDistinctNames_of_openFolder hd hopen)

end Disk

/-- The default package and the implicit prefix decide neither whether an analysis succeeds nor which
packages and classes it reports, but only the package of a file that declares none and the names
that are left out. -/
theorem differsInNaming_analyses {d : Disk} (hd : d.root.HasDistinctNames) (c : Settings)
    (n m : Naming) (path : Path) :
    Agree (PackageReport.Matches (ClassReport.DiffersInNaming n m))
        (analyzePackage d (c.named n) path).outcome.1
        (analyzePackage d (c.named m) path).outcome.1 ∧
      Agree (ProjectReport.Matches (ClassReport.DiffersInNaming n m))
        (analyzeProject d (c.named n) path).outcome.1
        (analyzeProject d (c.named m) path).outcome.1 := by
  have hpackage (path : Path) : Agree (PackageReport.Matches (ClassReport.DiffersInNaming n m))
      (analyzePackage d (c.named n) path).outcome.1
      (analyzePackage d (c.named m) path).outcome.1 :=
    (d.agree_reportOnPackage c n m hd path).of_sameValue (sameValue_analyzePackage d _ path)
      (sameValue_analyzePackage d _ path)
  refine ⟨hpackage path, ?_⟩
  have hentry : (findEntryPoint d (c.named n) path).outcome.1 =
      (findEntryPoint d (c.named m) path).outcome.1 := by
    rw [outcome_findEntryPoint, outcome_findEntryPoint]
    rfl
  rw [outcome_analyzeProject, outcome_analyzeProject, hentry]
  refine (Agree.refl _).bind ?_
  rintro entry _ rfl
  exact (hpackage entry).map fun r s hmatch => ⟨rfl, .cons hmatch .nil⟩

/-- A project with a source file that declares a package and has an import, and an empty one. -/
def namedDisk : Disk where
  root := .folder
    [("src", .folder
      [("java", .folder
        [("A.java", .file ((Text.ofString "package p;import q.B;").map Nat.toUInt8)),
          ("C.java", .file [])])])]
  here := []

/-- The report on it where nothing from the package of the import is named. -/
def namedReport : ProjectReport where
  projectName := []
  packages :=
    [.mk "java"
      [{ className := "A", packageName := "p", declaredPackage := some "p",
         dependencies := .empty },
        { className := "C", packageName := "default", declaredPackage := none,
          dependencies := .empty }] []]

theorem differsInNaming_namedDisk :
    namedDisk.root.HasDistinctNames ∧
    (analyzeProject namedDisk (Settings.named {} ⟨"default", "q."⟩) (.ofText ".")).outcome.1 =
      .ok namedReport ∧
    Agree (PackageReport.Matches (ClassReport.DiffersInNaming ⟨"default", "q."⟩ ⟨"java", []⟩))
        (analyzePackage namedDisk (Settings.named {} ⟨"default", "q."⟩) (.ofText ".")).outcome.1
        (analyzePackage namedDisk (Settings.named {} ⟨"java", []⟩) (.ofText ".")).outcome.1 ∧
      Agree (ProjectReport.Matches (ClassReport.DiffersInNaming ⟨"default", "q."⟩ ⟨"java", []⟩))
        (analyzeProject namedDisk (Settings.named {} ⟨"default", "q."⟩) (.ofText ".")).outcome.1
        (analyzeProject namedDisk (Settings.named {} ⟨"java", []⟩) (.ofText ".")).outcome.1 := by
  have hd : namedDisk.root.HasDistinctNames := by
    simp only [namedDisk, Node.hasDistinctNames_folder_iff, List.forall_mem_cons,
      List.not_mem_nil, false_implies, implies_true, Node.hasDistinctNames_file, and_true]
    decide
  exact ⟨hd, by cbv, differsInNaming_analyses hd {} _ _ _⟩

end TypeAtlas
