import TypeAtlas.Proofs.Report.Presentations
import TypeAtlas.Proofs.Report.Sorted

namespace TypeAtlas

namespace PackageReport

/-- Different packages of the list have different names. -/
def AreDistinct (ps : List PackageReport) : Prop :=
  ∀ p ∈ ps, ∀ q ∈ ps, p.packageName = q.packageName → p.same q = true

/-- At every level different classes have different names, and different packages have. -/
inductive HasDistinctNames : PackageReport → Prop
  | mk {p : PackageReport} :
      (∀ c ∈ p.classes, ∀ d ∈ p.classes, c.className = d.className → c = d) →
      AreDistinct p.subpackages → (∀ q ∈ p.subpackages, HasDistinctNames q) → HasDistinctNames p

theorem AreDistinct.of_matched {ps qs : List PackageReport} (hps : AreDistinct ps)
    (h : Matched (fun p q => p.same q = true) ps qs) : AreDistinct qs := by
  intro q hq r hr hname
  obtain ⟨s, hs, hsq⟩ := h.2 q hq
  obtain ⟨t, ht, htr⟩ := h.2 r hr
  have hnames : s.packageName = t.packageName := by
    rw [packageName_eq_of_same hsq, packageName_eq_of_same htr, hname]
  have hst : s.same t = true := hps s hs t ht hnames
  exact same_trans (same_symm hsq) (same_trans hst htr)

theorem AreDistinct.pairwise_sorted {ps : List PackageReport} (h : AreDistinct ps) :
    (sorted ps).Pairwise fun p q => p.packageName < q.packageName := by
  refine pairwise_sortedBy_of_ne ((pairwise_distinct ps).imp_of_mem ?_)
  intro p q hp hq hdiffers hname
  have hsame : p.same q = true := h p (mem_of_mem_distinct hp) q (mem_of_mem_distinct hq) hname
  simp [hsame] at hdiffers

/-- Sets of packages with names of their own are listed package by package alike. -/
theorem AreDistinct.forall₂_sorted {ps qs : List PackageReport} (hps : AreDistinct ps)
    (h : Matched (fun p q => p.same q = true) ps qs) :
    List.Forall₂ (fun p q => p.same q = true) (sorted ps) (sorted qs) := by
  have hqs : AreDistinct qs := hps.of_matched h
  have hback : Matched (fun p q => p.same q = true) (sorted ps) ps :=
    (matched_sorted ps).symm fun _ _ _ hpq => same_symm hpq
  have hthere : Matched (fun p q => p.same q = true) (sorted ps) qs :=
    hback.trans h fun _ _ _ _ _ => same_trans
  have hsorted : Matched (fun p q => p.same q = true) (sorted ps) (sorted qs) :=
    hthere.trans (matched_sorted qs) fun _ _ _ _ _ => same_trans
  exact forall₂_of_matched hps.pairwise_sorted hqs.pairwise_sorted
    (fun _ _ => packageName_eq_of_same) hsorted

theorem pairwise_sortedClasses {p : PackageReport}
    (h : ∀ c ∈ p.classes, ∀ d ∈ p.classes, c.className = d.className → c = d) :
    p.sortedClasses.Pairwise fun c d => c.className < d.className := by
  refine pairwise_sortedBy_of_ne ((nodup_distinctClasses p.classes).imp_of_mem ?_)
  intro c d hc hd hne hname
  exact hne (h c (mem_distinctClasses.mp hc) d (mem_distinctClasses.mp hd) hname)

/-- Classes with names of their own are listed in one way only. -/
theorem sortedClasses_eq {p q : PackageReport}
    (hp : ∀ c ∈ p.classes, ∀ d ∈ p.classes, c.className = d.className → c = d)
    (h : ∀ c, c ∈ p.classes ↔ c ∈ q.classes) : p.sortedClasses = q.sortedClasses := by
  have hq : ∀ c ∈ q.classes, ∀ d ∈ q.classes, c.className = d.className → c = d :=
    fun c hc d hd => hp c ((h c).mpr hc) d ((h d).mpr hd)
  have hmatched : Matched Eq p.sortedClasses q.sortedClasses :=
    matched_of_mem_iff (fun _ => rfl) fun c => by simpa using h c
  have hall : List.Forall₂ Eq p.sortedClasses q.sortedClasses :=
    forall₂_of_matched (pairwise_sortedClasses hp) (pairwise_sortedClasses hq)
      (fun _ _ heq => congrArg ClassReport.className heq) hmatched
  exact List.forall₂_eq_eq_eq ▸ hall

/-- What is computed of several packages in order does not depend on how their set is presented, if
what is computed of each of them does not. -/
theorem AreDistinct.map_sorted_eq {γ : Type} {f : PackageReport → γ} {ps qs : List PackageReport}
    (hps : AreDistinct ps) (hf : ∀ p ∈ ps, ∀ q, p.same q = true → f p = f q)
    (h : Matched (fun p q => p.same q = true) ps qs) :
    (sorted ps).map f = (sorted qs).map f := by
  refine (map_eq_map_of_forall₂ (hps.forall₂_sorted h) ?_).symm
  intro p hp q hpq
  exact (hf p (mem_of_mem_sorted hp) q hpq).symm

/-- What is computed of a package from its name, its classes in order and the results for its
subpackages in order does not depend on how the sets are presented. -/
theorem HasDistinctNames.eq_of_same {γ : Type} {f : PackageReport → γ}
    (hf : ∀ p q : PackageReport, p.packageName = q.packageName →
      p.sortedClasses = q.sortedClasses →
      (sorted p.subpackages).map f = (sorted q.subpackages).map f → f p = f q)
    {p q : PackageReport} (hp : p.HasDistinctNames) (h : p.same q = true) : f p = f q := by
  induction p using induction_subpackages generalizing q with
  | step p ih =>
    obtain ⟨hclasses, hdistinct, hinner⟩ := hp
    obtain ⟨hname, hclasses', hsubpackages⟩ := same_iff.mp h
    refine hf p q hname (sortedClasses_eq hclasses hclasses') ?_
    exact hdistinct.map_sorted_eq (fun s hs t hst => ih s hs (hinner s hs) hst) hsubpackages

section Outputs

variable {p q : PackageReport} (hp : p.HasDistinctNames) (h : p.same q = true)

include hp h

theorem HasDistinctNames.json_eq : p.json = q.json := by
  refine hp.eq_of_same ?_ h
  intro p q hname hclasses hsubpackages
  rw [p.json_eq, q.json_eq, hname, hclasses, hsubpackages]

theorem HasDistinctNames.outline_eq (depth : Nat) : p.outline depth = q.outline depth := by
  have houtlines : (fun depth => p.outline depth) = fun depth => q.outline depth := by
    refine hp.eq_of_same (f := fun p depth => p.outline depth) ?_ h
    intro p q hname hclasses hsubpackages
    funext depth
    have hlines := congrArg (List.flatMap fun lines => lines (depth + 1)) hsubpackages
    simp only [List.flatMap_map] at hlines
    rw [p.outline_eq, q.outline_eq, hname, hclasses, hlines]
  exact congrFun houtlines depth

theorem HasDistinctNames.classCount_eq : p.classCount = q.classCount := by
  refine hp.eq_of_same ?_ h
  intro p q _ hclasses hsubpackages
  rw [p.classCount_eq_sum_sorted, q.classCount_eq_sum_sorted, hclasses, hsubpackages]

end Outputs

end PackageReport

/-- The list has the members of a set up to `E`, each of them once and in strictly increasing order
of their names. -/
structure IsOrdered {α : Type} (name : α → Text) (E : α → α → Prop) (xs listed : List α) :
    Prop where
  increasing : listed.Pairwise fun x y => name x < name y
  matched : Matched E xs listed

namespace ClassReport

/-- The value shows a class, with its dependencies in strictly increasing order. -/
inductive IsShownBy : ClassReport → Json → Prop
  | mk {c : ClassReport} {names : List Text} :
      names.Pairwise (· < ·) → (∀ n, n ∈ names ↔ n ∈ c.dependencies) →
      IsShownBy c (.object [("class_name", .text c.className),
        ("package_name", .text c.packageName), ("declared_package", c.declaredPackage.elim .null .text),
        ("dependencies", .array (names.map .text))])

theorem isShownBy_json (c : ClassReport) : c.IsShownBy c.json :=
  .mk c.dependencies.sorted fun _ => Iff.rfl

end ClassReport

namespace PackageReport

/-- The value shows a package, with its classes and its subpackages in strictly increasing order of
their names, and so on inside. -/
inductive IsShownBy : PackageReport → Json → Prop
  | mk {p : PackageReport} {cs : List ClassReport} {ps : List PackageReport}
      {classes subpackages : List Json} :
      IsOrdered ClassReport.className Eq p.classes cs →
      List.Forall₂ ClassReport.IsShownBy cs classes →
      IsOrdered packageName (fun q r => q.same r = true) p.subpackages ps →
      List.Forall₂ IsShownBy ps subpackages →
      IsShownBy p (.object [("package_name", .text p.packageName), ("classes", .array classes),
        ("subpackages", .array subpackages)])

theorem isOrdered_sortedClasses {p : PackageReport}
    (h : ∀ c ∈ p.classes, ∀ d ∈ p.classes, c.className = d.className → c = d) :
    IsOrdered ClassReport.className Eq p.classes p.sortedClasses where
  increasing := pairwise_sortedClasses h
  matched := matched_of_mem_iff (fun _ => rfl) fun _ => mem_sortedClasses.symm

theorem AreDistinct.isOrdered_sorted {ps : List PackageReport} (h : AreDistinct ps) :
    IsOrdered packageName (fun p q => p.same q = true) ps (sorted ps) where
  increasing := h.pairwise_sorted
  matched := matched_sorted ps

theorem forall₂_isShownBy {ps : List PackageReport} (h : ∀ p ∈ ps, p.IsShownBy p.json) :
    List.Forall₂ IsShownBy (sorted ps) ((sorted ps).map json) :=
  List.forall₂_map_right_iff.mpr (List.forall₂_same.mpr fun p hp => h p (mem_of_mem_sorted hp))

theorem HasDistinctNames.isShownBy_json {p : PackageReport} (h : p.HasDistinctNames) :
    p.IsShownBy p.json := by
  induction h with
  | @mk p hclasses hdistinct _ ih =>
    have hshown : List.Forall₂ ClassReport.IsShownBy p.sortedClasses
        (p.sortedClasses.map ClassReport.json) :=
      List.forall₂_map_right_iff.mpr (List.forall₂_same.mpr fun c _ => c.isShownBy_json)
    rw [PackageReport.json_eq]
    exact .mk (isOrdered_sortedClasses hclasses) hshown hdistinct.isOrdered_sorted
      (forall₂_isShownBy ih)

end PackageReport

namespace Report

/-- At every level different classes have different names, and different packages have. -/
def HasDistinctNames : Report → Prop
  | .ofClass _ => True
  | .ofPackage p => p.HasDistinctNames
  | .ofProject p => PackageReport.AreDistinct p.packages ∧ ∀ q ∈ p.packages, q.HasDistinctNames

/-- The number of classes in a report that counts them. -/
def classCount? : Report → Option Nat
  | .ofClass _ => none
  | .ofPackage p => some p.classCount
  | .ofProject p => some p.classCount

/-- The value shows a report with every set of it in strictly increasing order. -/
inductive IsShownBy : Report → Json → Prop
  | ofClass {c : ClassReport} {j : Json} : c.IsShownBy j → IsShownBy (.ofClass c) j
  | ofPackage {p : PackageReport} {j : Json} : p.IsShownBy j → IsShownBy (.ofPackage p) j
  | ofProject {p : ProjectReport} {ps : List PackageReport} {packages : List Json} :
      IsOrdered PackageReport.packageName (fun q r => q.same r = true) p.packages ps →
      List.Forall₂ PackageReport.IsShownBy ps packages →
      IsShownBy (.ofProject p)
        (.object [("project_name", .text p.projectName), ("packages", .array packages)])

theorem HasDistinctNames.isShownBy_json {r : Report} (h : r.HasDistinctNames) :
    r.IsShownBy r.json := by
  cases r with
  | ofClass c => exact .ofClass c.isShownBy_json
  | ofPackage p => exact .ofPackage (PackageReport.HasDistinctNames.isShownBy_json h)
  | ofProject p =>
    obtain ⟨hdistinct, hpackages⟩ := h
    exact .ofProject hdistinct.isOrdered_sorted
      (PackageReport.forall₂_isShownBy fun q hq => (hpackages q hq).isShownBy_json)

/-- The same report has the same outputs. -/
theorem HasDistinctNames.outputs_eq {r s : Report} (hr : r.HasDistinctNames)
    (h : r.same s = true) :
    r.json = s.json ∧ r.outline = s.outline ∧ r.classCount? = s.classCount? := by
  cases r with
  | ofClass c =>
    cases s with
    | ofClass d => simp_all [same]
    | ofPackage _ => cases h
    | ofProject _ => cases h
  | ofPackage p =>
    cases s with
    | ofPackage q =>
      have hp : p.HasDistinctNames := hr
      exact ⟨hp.json_eq h, hp.outline_eq h 0, congrArg some (hp.classCount_eq h)⟩
    | ofClass _ => cases h
    | ofProject _ => cases h
  | ofProject p =>
    cases s with
    | ofProject q =>
      obtain ⟨hdistinct, hpackages⟩ := hr
      obtain ⟨hname, hmatched⟩ := same_ofProject_iff.mp h
      have hjson := hdistinct.map_sorted_eq (fun s hs t => (hpackages s hs).json_eq) hmatched
      have houtline := hdistinct.map_sorted_eq
        (fun s hs t hst => (hpackages s hs).outline_eq hst 1) hmatched
      have hcount := hdistinct.map_sorted_eq (fun s hs t => (hpackages s hs).classCount_eq) hmatched
      have hcounts : p.classCount = q.classCount := by
        rw [ProjectReport.classCount_eq, ProjectReport.classCount_eq, hcount]
      refine ⟨?_, ?_, congrArg some hcounts⟩
      · simp only [json, ProjectReport.json, hname, hjson]
      · simp only [outline, ProjectReport.outline, hname, hcounts, List.flatMap_def, houtline]
    | ofClass _ => cases h
    | ofPackage _ => cases h

end Report

/-- All ways to enumerate the sets of a report with distinct names give the same outputs, and the
lists in them are in strictly increasing order and complete. -/
theorem Presentation.outputs_eq_of_rearranges {a b : Presentation}
    (hnames : a.report.HasDistinctNames) (h : a.Rearranges b) :
    a.report.json = b.report.json ∧ a.report.jsonText = b.report.jsonText ∧
      a.report.plainText = b.report.plainText ∧ a.report.classCount? = b.report.classCount? ∧
      a.report.IsShownBy a.report.json := by
  obtain ⟨hjson, houtline, hcount⟩ := hnames.outputs_eq h.same
  have htext : a.report.jsonText = b.report.jsonText := congrArg Json.indented hjson
  have hplain : a.report.plainText = b.report.plainText := congrArg (Text.join "\n") houtline
  exact ⟨hjson, htext, hplain, hcount, hnames.isShownBy_json⟩

namespace Presentation

def emptyPackage (name : Text) : PackagePresentation :=
  .mk name [] []

def userClass (dependencies : List Text) : ClassPresentation :=
  { className := "A", packageName := "app", declaredPackage := some "app",
    dependencies := dependencies }

def freeClass : ClassPresentation :=
  { className := "B", packageName := "app", declaredPackage := none, dependencies := [] }

/-- A package with nothing out of order. -/
def tidy : Presentation :=
  .ofPackage (.mk "app" [userClass ["p.X", "p.Y"], freeClass]
    [emptyPackage "core", emptyPackage "util"])

/-- The same package with all its sets permuted and repeated. -/
def untidy : Presentation :=
  .ofPackage (.mk "app" [freeClass, userClass ["p.Y", "p.X", "p.Y"], freeClass]
    [emptyPackage "util", emptyPackage "core", emptyPackage "util"])

theorem hasDistinctNames_tidy : tidy.report.HasDistinctNames := by
  have hempty : ∀ name : Text, (PackageReport.mk name [] []).HasDistinctNames := by
    intro name
    exact .mk nofun nofun nofun
  refine .mk ?_ ?_ ?_
  · decide
  · unfold PackageReport.AreDistinct
    decide
  · intro q hq
    have hcases : q = (emptyPackage "core").report ∨ q = (emptyPackage "util").report := by
      simpa [PackageReport.subpackages, PackagePresentation.report,
        PackagePresentation.reports] using hq
    obtain rfl | rfl := hcases
    · exact hempty "core"
    · exact hempty "util"

theorem rearranges_tidy_untidy : tidy.Rearranges untidy := by
  have hdependencies : (userClass ["p.X", "p.Y"]).Reorders (userClass ["p.Y", "p.X", "p.Y"]) := by
    refine .dependencies fun n => ?_
    simp only [userClass, List.mem_cons, List.not_mem_nil, or_false]
    tauto
  have hinner : ∀ packages : List PackagePresentation,
      (PackagePresentation.mk "app" [userClass ["p.X", "p.Y"], freeClass] packages).Reorders
        (.mk "app" [userClass ["p.Y", "p.X", "p.Y"], freeClass] packages) := fun packages =>
    @PackagePresentation.Reorders.inClass "app" [] [freeClass] _ _ packages hdependencies
  have hclasses : ∀ packages : List PackagePresentation,
      (PackagePresentation.mk "app" [userClass ["p.Y", "p.X", "p.Y"], freeClass] packages).Reorders
        (.mk "app" [freeClass, userClass ["p.Y", "p.X", "p.Y"], freeClass] packages) := by
    intro packages
    refine .classes fun c => ?_
    simp only [List.mem_cons, List.not_mem_nil, or_false]
    tauto
  have hpackages : ∀ classes : List ClassPresentation,
      (PackagePresentation.mk "app" classes [emptyPackage "core", emptyPackage "util"]).Reorders
        (.mk "app" classes [emptyPackage "util", emptyPackage "core", emptyPackage "util"]) := by
    intro classes
    refine .subpackages fun p => ?_
    simp only [List.mem_cons, List.not_mem_nil, or_false]
    tauto
  exact .head (.ofPackage (hinner _)) (.head (.ofPackage (hclasses _))
    (.single (.ofPackage (hpackages _))))

end Presentation

theorem outputs_eq_tidy_untidy :
    Presentation.tidy.report.HasDistinctNames ∧ Presentation.tidy.Rearranges Presentation.untidy ∧
      Presentation.tidy.report.json = Presentation.untidy.report.json ∧
      Presentation.tidy.report.jsonText = Presentation.untidy.report.jsonText ∧
      Presentation.tidy.report.plainText = Presentation.untidy.report.plainText ∧
      Presentation.tidy.report.classCount? = Presentation.untidy.report.classCount? ∧
      Presentation.tidy.report.IsShownBy Presentation.tidy.report.json :=
  ⟨Presentation.hasDistinctNames_tidy, Presentation.rearranges_tidy_untidy,
    Presentation.outputs_eq_of_rearranges Presentation.hasDistinctNames_tidy
      Presentation.rearranges_tidy_untidy⟩

end TypeAtlas
