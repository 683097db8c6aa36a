import TypeAtlas.Proofs.Analysis.Completeness
import TypeAtlas.Proofs.Report.Canonical

namespace TypeAtlas

namespace Analysis

/-- The outcome of an analysis that goes on after notes have been taken. -/
def resume {α : Type} (a : Analysis α) (notes : List Note) : Except Failure α × List Note :=
  StateT.run (ExceptT.run a) notes

theorem resume_bind {α β : Type} (a : Analysis α) (f : α → Analysis β) (notes : List Note) :
    (a >>= f).resume notes = match a.resume notes with
      | (.ok x, ns) => (f x).resume ns
      | (.error e, ns) => (.error e, ns) := by
  simp only [resume, ExceptT.run_bind, StateT.run_bind]
  obtain ⟨result, ns⟩ := (ExceptT.run a).run notes
  cases result <;> rfl

/-- If an analysis of two steps succeeds, both steps do. -/
theorem exists_of_resume_bind {α β : Type} {a : Analysis α} {f : α → Analysis β}
    {notes : List Note} {y : β} (h : ((a >>= f).resume notes).1 = .ok y) :
    ∃ x ns, (a.resume notes).1 = .ok x ∧ ((f x).resume ns).1 = .ok y := by
  rw [resume_bind] at h
  rcases hfound : a.resume notes with ⟨result, ns⟩
  rw [hfound] at h
  cases result with
  | ok x => exact ⟨x, ns, rfl, h⟩
  | error e => cases h

/-- What a job gives does not depend on the notes before it. -/
theorem fst_resume_ofJob (c : Settings) (j : AnalysisJob) (notes : List Note) :
    ((ofJob c j).resume notes).1 = (j.run (lossNotes c)).2 :=
  rfl

end Analysis

variable {d : Disk} {c : Settings} {path : Path}

theorem fst_resume_analyzePackage (notes : List Note) :
    ((analyzePackage d c path).resume notes).1 = (analyzePackage d c path).outcome.1 := by
  have hresume : ∀ ns : List Note, ((analyzePackage d c path).resume ns).1 =
      ((packageJob d c path).run (Analysis.lossNotes c)).2.map fun found =>
        found.package (d.baseName path) := by
    intro ns
    have hjob := Analysis.fst_resume_ofJob c (packageJob d c path) ns
    rw [analyzePackage, Analysis.resume_bind, ← hjob]
    obtain ⟨result, ns'⟩ := (Analysis.ofJob c (packageJob d c path)).resume ns
    cases result <;> rfl
  have houtcome : (analyzePackage d c path).outcome = (analyzePackage d c path).resume [] := rfl
  rw [houtcome, hresume, hresume]

/-- An analysis of a project is one of the package at its entry point. -/
theorem outcome_analyzeProject (d : Disk) (c : Settings) (project : Path) :
    (analyzeProject d c project).outcome.1 =
      (findEntryPoint d c project).outcome.1 >>= fun entry =>
        (analyzePackage d c entry).outcome.1.map fun root =>
          { projectName := d.baseName project, packages := [root] } := by
  change (Analysis.resume _ []).1 = (Analysis.resume _ []).1 >>= _
  rw [analyzeProject, Analysis.resume_bind]
  obtain ⟨entry | entry, notes⟩ := (findEntryPoint d c project).resume []
  · rfl
  · rw [ok_bind, ← fst_resume_analyzePackage notes]
    change (Analysis.resume (analyzePackage d c entry >>= _) notes).1 = _
    rw [Analysis.resume_bind]
    obtain ⟨root | root, _⟩ := (analyzePackage d c entry).resume notes
    · rfl
    · rfl

/-- An analysis of a project reports what the job of the project finds, as the package at the entry
point. -/
theorem outcome_analyzeProject_eq_ok_iff {r : ProjectReport} :
    (analyzeProject d c path).outcome.1 = .ok r ↔
      ∃ entry found, (findEntryPoint d c path).outcome.1 = .ok entry ∧
        (projectJob d c path).result = .ok found ∧
        r = { projectName := d.baseName path,
              packages := [found.package (d.baseName entry)] } := by
  rw [outcome_analyzeProject, outcome_findEntryPoint, result_projectJob]
  constructor
  · intro h
    obtain ⟨entry, hentry, h⟩ := bind_eq_ok_iff.mp h
    obtain ⟨package, hpackage, rfl⟩ := map_eq_ok_iff.mp h
    have hreport := outcome_analyzePackage_eq_ok_iff.mp hpackage
    refine ⟨entry, .ofPackage package, hentry, ?_, ?_⟩
    · exact bind_eq_ok_iff.mpr ⟨entry, hentry, map_eq_ok_iff.mpr ⟨package, hreport, rfl⟩⟩
    · rw [← packageName_of_reportOnPackage hreport, package_ofPackage]
  · rintro ⟨entry, found, hentry, hfound, rfl⟩
    rw [hentry, ok_bind] at hfound ⊢
    obtain ⟨package, hreport, rfl⟩ := map_eq_ok_iff.mp hfound
    rw [outcome_analyzePackage_eq_ok_iff.mpr hreport, ← packageName_of_reportOnPackage hreport,
      package_ofPackage]
    rfl

/-- In the report on a folder the names of classes and of packages are distinct, because those of
the entries are. -/
theorem hasDistinctNames_of_reportOnFolder {entries : List (Text × Node)} {r : PackageReport}
    (hd : (Node.folder entries).HasDistinctNames)
    (h : d.reportOnFolder c path (.folder entries) = .ok r) : r.HasDistinctNames := by
  induction r using PackageReport.induction_subpackages generalizing path entries with
  | step r ih =>
    obtain ⟨listing, hlists, hsources⟩ := exists_sources_of_reportOnFolder hd.nodup h
    obtain ⟨_, _, _, hsubpackages⟩ := Disk.reportOnFolder_eq_ok h
    have hclasses : (r.classes.map fun k => k.className ++ c.sourceExtension).Nodup := by
      rw [hsources]
      exact hlists.nodup_sources
    have hpackages : (r.subpackages.map PackageReport.packageName).Nodup := by
      rw [packageNames_of_reportOnFolder h]
      exact Node.nodup_subfolders hd.nodup
    refine .mk ?_ ?_ ?_
    · intro k hk l hl hname
      have hfile : k.className ++ c.sourceExtension = l.className ++ c.sourceExtension := by
        rw [hname]
      exact List.inj_on_of_nodup_map hclasses hk hl hfile
    · intro p hp q hq hname
      obtain rfl : p = q := List.inj_on_of_nodup_map hpackages hp hq hname
      exact p.same_refl
    · intro q hq
      obtain ⟨f, hf, hreport⟩ := exists_of_forall₂_right hsubpackages hq
      exact ih q hq (hd.entry (Node.mem_subfolders_iff.mp hf)) hreport

theorem hasDistinctNames_analyzePackage {r : PackageReport} (hd : d.root.HasDistinctNames)
    (h : (analyzePackage d c path).outcome.1 = .ok r) :
    (Report.ofPackage r).HasDistinctNames := by
  obtain ⟨entries, hopen, hreport⟩ := exists_entries_of_analyzePackage h
  exact hasDistinctNames_of_reportOnFolder (Disk.hasDistinctNames_of_openFolder hd hopen) hreport

theorem hasDistinctNames_analyzeProject {r : ProjectReport} (hd : d.root.HasDistinctNames)
    (h : (analyzeProject d c path).outcome.1 = .ok r) :
    (Report.ofProject r).HasDistinctNames := by
  obtain ⟨entry, notes, _, h⟩ := Analysis.exists_of_resume_bind h
  obtain ⟨root, notes', hroot, h⟩ := Analysis.exists_of_resume_bind h
  rw [fst_resume_analyzePackage] at hroot
  obtain rfl := Except.ok.inj h
  constructor
  · intro p hp q hq _
    rw [List.mem_singleton.mp hp, List.mem_singleton.mp hq]
    exact root.same_refl
  · intro q hq
    obtain rfl := List.mem_singleton.mp hq
    exact hasDistinctNames_analyzePackage hd hroot

end TypeAtlas
