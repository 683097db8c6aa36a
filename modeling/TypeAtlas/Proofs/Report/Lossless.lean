import TypeAtlas.Proofs.Json.Ascii
import TypeAtlas.Proofs.Json.RoundTrip
import TypeAtlas.Proofs.Report.Sorted
import TypeAtlas.Proofs.Text

namespace TypeAtlas

theorem Text.isScalar_ofString (s : String) : Text.IsScalar (Text.ofString s) := by
  intro c hc
  obtain ⟨d, _, rfl⟩ := List.mem_map.mp hc
  exact d.valid

namespace ClassReport

/-- All texts in the report consist of Unicode scalar values. -/
structure IsScalar (c : ClassReport) : Prop where
  className : c.className.IsScalar
  packageName : c.packageName.IsScalar
  declaredPackage : ∀ name, c.declaredPackage = some name → name.IsScalar
  dependencies : ∀ name ∈ c.dependencies, name.IsScalar

theorem isScalar_json {c : ClassReport} (h : c.IsScalar) : c.json.IsScalar := by
  have hdeclared : (c.declaredPackage.elim Json.null .text).IsScalar := by
    cases hdeclared : c.declaredPackage with
    | none => exact .null
    | some name => exact .text (h.declaredPackage name hdeclared)
  have hdependencies : ∀ j ∈ c.dependencies.toList.map Json.text, j.IsScalar := by
    intro j hj
    obtain ⟨name, hname, rfl⟩ := List.mem_map.mp hj
    exact .text (h.dependencies name hname)
  rw [json]
  refine .object ?_ ?_
  · simp [Text.isScalar_ofString]
  · simpa using ⟨.text h.className, .text h.packageName, hdeclared, .array hdependencies⟩

theorem eq_of_json_eq {c d : ClassReport} (h : c.json = d.json) : c = d := by
  obtain ⟨className, packageName, declaredPackage, dependencies⟩ := c
  obtain ⟨className', packageName', declaredPackage', dependencies'⟩ := d
  simp only [json, Json.object.injEq, List.cons.injEq, Prod.mk.injEq, Json.text.injEq,
    Json.array.injEq, true_and, and_true] at h
  obtain ⟨rfl, rfl, hdeclared, hdependencies⟩ := h
  have hnames : dependencies.toList = dependencies'.toList :=
    List.map_injective_iff.mpr (fun _ _ => Json.text.inj) hdependencies
  obtain rfl : dependencies = dependencies' := NameSet.toList_injective hnames
  cases declaredPackage <;> cases declaredPackage' <;> simp_all

end ClassReport

namespace PackageReport

theorem isScalar_json {p : PackageReport} (h : p.Everywhere Text.IsScalar ClassReport.IsScalar) :
    p.json.IsScalar := by
  induction h with
  | @mk p hname hclasses _ ih =>
    have hclasses' : ∀ j ∈ p.sortedClasses.map ClassReport.json, j.IsScalar := by
      intro j hj
      obtain ⟨c, hc, rfl⟩ := List.mem_map.mp hj
      exact ClassReport.isScalar_json (hclasses c (mem_sortedClasses.mp hc))
    have hsubpackages : ∀ j ∈ (sorted p.subpackages).map json, j.IsScalar := by
      intro j hj
      obtain ⟨q, hq, rfl⟩ := List.mem_map.mp hj
      exact ih q (mem_of_mem_sorted hq)
    rw [json_eq]
    refine .object ?_ ?_
    · simp [Text.isScalar_ofString]
    · simpa using ⟨.text hname, .array hclasses', .array hsubpackages⟩

/-- Packages that are shown alike are the same. -/
theorem same_of_json_eq {p q : PackageReport} (h : p.json = q.json) : p.same q = true := by
  induction p using induction_subpackages generalizing q with
  | step p ih =>
    rw [p.json_eq, q.json_eq] at h
    simp only [Json.object.injEq, List.cons.injEq, Prod.mk.injEq, Json.text.injEq,
      Json.array.injEq, true_and, and_true] at h
    obtain ⟨hname, hclasses, hsubpackages⟩ := h
    have hsorted : p.sortedClasses = q.sortedClasses :=
      List.map_injective_iff.mpr (fun _ _ => ClassReport.eq_of_json_eq) hclasses
    have hmatched : Matched (fun s t => s.same t = true) (sorted p.subpackages)
        (sorted q.subpackages) :=
      (matched_of_map_eq hsubpackages).imp fun s hs t _ hst => ih s (mem_of_mem_sorted hs) hst
    exact same_iff.mpr
      ⟨hname, mem_iff_of_sortedClasses_eq hsorted, matched_of_matched_sorted hmatched⟩

end PackageReport

namespace Report

/-- All texts in the report consist of Unicode scalar values. -/
def IsScalar (r : Report) : Prop :=
  r.Everywhere Text.IsScalar ClassReport.IsScalar

theorem isScalar_json {r : Report} (h : r.IsScalar) : r.json.IsScalar := by
  cases r with
  | ofClass c => exact ClassReport.isScalar_json h
  | ofPackage p => exact PackageReport.isScalar_json h
  | ofProject p =>
    obtain ⟨hname, hpackages⟩ := h
    have hitems : ∀ j ∈ (PackageReport.sorted p.packages).map PackageReport.json, j.IsScalar := by
      intro j hj
      obtain ⟨q, hq, rfl⟩ := List.mem_map.mp hj
      exact PackageReport.isScalar_json (hpackages q (PackageReport.mem_of_mem_sorted hq))
    refine .object ?_ ?_
    · simp [Text.isScalar_ofString]
    · simpa using ⟨.text hname, .array hitems⟩

theorem same_of_json_eq {r s : Report} (h : r.json = s.json) : r.same s = true := by
  -- Reports of different kinds are shown with different numbers of members.
  cases r with
  | ofClass c =>
    cases s with
    | ofClass d => simpa [same] using ClassReport.eq_of_json_eq h
    | ofPackage q => simp [json, ClassReport.json, PackageReport.json_eq] at h
    | ofProject q => simp [json, ClassReport.json, ProjectReport.json] at h
  | ofPackage p =>
    cases s with
    | ofClass d => simp [json, ClassReport.json, PackageReport.json_eq] at h
    | ofPackage q => exact PackageReport.same_of_json_eq h
    | ofProject q => simp [json, PackageReport.json_eq, ProjectReport.json] at h
  | ofProject p =>
    cases s with
    | ofClass d => simp [json, ClassReport.json, ProjectReport.json] at h
    | ofPackage q => simp [json, PackageReport.json_eq, ProjectReport.json] at h
    | ofProject q =>
      simp only [json, ProjectReport.json, Json.object.injEq, List.cons.injEq, Prod.mk.injEq,
        Json.text.injEq, Json.array.injEq, true_and, and_true] at h
      obtain ⟨hname, hpackages⟩ := h
      have hmatched := (matched_of_map_eq hpackages).imp fun _ _ _ _ =>
        PackageReport.same_of_json_eq
      exact same_ofProject_iff.mpr ⟨hname, PackageReport.matched_of_matched_sorted hmatched⟩

/-- The JSON text of a report is in ASCII, it reads back as the value it was written for, and
reports with the same text are the same. -/
theorem jsonText_lossless {r s : Report} (hr : r.IsScalar) (hs : s.IsScalar) :
    (∀ c ∈ r.jsonText.toList, c.toNat < 128) ∧ Json.ofString? r.jsonText = some r.json ∧
      (r.jsonText = s.jsonText → r.same s = true) := by
  have hread := Json.ofString?_write .lines (isScalar_json hr)
  have hread' := Json.ofString?_write .lines (isScalar_json hs)
  refine ⟨?_, hread, ?_⟩
  · rw [jsonText, Json.indented, String.toList_ofList]
    exact Json.isAscii_write .lines 0 r.json
  · intro htext
    have hjson : r.json = s.json := by
      rw [jsonText, jsonText, Json.indented, Json.indented] at htext
      rw [htext, hread'] at hread
      exact Option.some.inj hread.symm
    exact same_of_json_eq hjson

/-- A class without a package that depends on a name in quotes. -/
def quotingClass : ClassReport :=
  { className := "A", packageName := "default", declaredPackage := none,
    dependencies := .ofList ["p.\"Q\""] }

/-- A package with an emoji in its name. -/
def emojiReport : Report :=
  .ofPackage (.mk "café😀" [quotingClass] [])

theorem isScalar_emojiReport : emojiReport.IsScalar := by
  refine .mk (Text.isScalar_ofString _) ?_ nofun
  intro c hc
  obtain rfl : c = quotingClass := List.mem_singleton.mp hc
  constructor
  · exact Text.isScalar_ofString _
  · exact Text.isScalar_ofString _
  · intro name hname
    cases hname
  · intro name hname
    obtain rfl : name = Text.ofString "p.\"Q\"" := by
      simpa [quotingClass] using hname
    exact Text.isScalar_ofString _

theorem jsonText_lossless_emojiReport :
    emojiReport.IsScalar ∧ (∀ c ∈ emojiReport.jsonText.toList, c.toNat < 128) ∧
      Json.ofString? emojiReport.jsonText = some emojiReport.json ∧
      (emojiReport.jsonText = emojiReport.jsonText → emojiReport.same emojiReport = true) :=
  ⟨isScalar_emojiReport, jsonText_lossless isScalar_emojiReport isScalar_emojiReport⟩

end Report

end TypeAtlas
