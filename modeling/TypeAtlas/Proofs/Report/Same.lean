import TypeAtlas.Proofs.Matching
import TypeAtlas.Proofs.Report.Distinct

namespace TypeAtlas.PackageReport

variable {α β : Type}

theorem foldl_or_columns (f : α → β → Bool) (g : β → Bool) (xs : List α) (ys : List β) :
    (xs.map fun x => ys.map (f x)).foldl (List.zipWith (· || ·)) (ys.map g) =
      ys.map fun y => g y || xs.any (f · y) := by
  induction xs generalizing g with
  | nil => simp
  | cons x xs ih =>
    have hrow : List.zipWith (· || ·) (ys.map g) (ys.map (f x)) = ys.map fun y => g y || f x y := by
      rw [List.zipWith_map, List.zipWith_self]
    rw [List.map_cons, List.foldl_cons, hrow, ih]
    simp [Bool.or_assoc]

theorem isTotal_map_iff {f : α → β → Bool} {xs : List α} {ys : List β} :
    isTotal ys.length (xs.map fun x => ys.map (f x)) = true ↔
      Matched (fun x y => f x y = true) xs ys := by
  have hstart : List.replicate ys.length false = ys.map fun _ => false := by simp
  rw [isTotal, hstart, foldl_or_columns, Bool.and_eq_true, Matched]
  simp

theorem comparisons_eq (ps qs : List PackageReport) :
    comparisons ps qs = ps.map fun p => qs.map (same p) := by
  induction ps with
  | nil => rw [comparisons, List.map_nil]
  | cons p ps ih => rw [comparisons, ih, List.map_cons]

theorem sameSet_iff {ps qs : List PackageReport} :
    sameSet ps qs = true ↔ Matched (fun p q => p.same q = true) ps qs := by
  rw [sameSet, comparisons_eq, isTotal_map_iff]

theorem sameClasses_iff {cs ds : List ClassReport} :
    sameClasses cs ds = true ↔ ∀ c, c ∈ cs ↔ c ∈ ds := by
  simp only [sameClasses, Bool.and_eq_true, List.all_eq_true, List.contains_iff_mem]
  exact ⟨fun h c => ⟨h.1 c, h.2 c⟩, fun h => ⟨fun c => (h c).mp, fun c => (h c).mpr⟩⟩

/-- Packages are the same if they have the same name, the same classes and, up to being the same,
the same subpackages. -/
theorem same_iff {p q : PackageReport} :
    p.same q = true ↔ p.packageName = q.packageName ∧ (∀ c, c ∈ p.classes ↔ c ∈ q.classes) ∧
      Matched (fun s t => s.same t = true) p.subpackages q.subpackages := by
  rw [← sameSet_iff, ← sameClasses_iff]
  obtain ⟨name, classes, subpackages⟩ := p
  rw [same, Bool.and_eq_true, Bool.and_eq_true, decide_eq_true_eq, and_assoc]
  rfl

theorem sizeOf_lt_of_mem {p q : PackageReport} (h : q ∈ p.subpackages) : sizeOf q < sizeOf p := by
  obtain ⟨name, classes, inner⟩ := p
  have hlt : sizeOf q < sizeOf inner := List.sizeOf_lt_of_mem h
  simp only [mk.sizeOf_spec]
  omega

/-- What holds of a package if it holds of its subpackages holds of all packages. -/
theorem induction_subpackages {P : PackageReport → Prop}
    (step : ∀ p, (∀ q ∈ p.subpackages, P q) → P p) (p : PackageReport) : P p :=
  step p fun q _ => induction_subpackages step q
termination_by sizeOf p
decreasing_by exact sizeOf_lt_of_mem ‹_›

theorem same_refl (p : PackageReport) : p.same p = true := by
  induction p using induction_subpackages with
  | step p ih => exact same_iff.mpr ⟨rfl, fun _ => Iff.rfl, matched_refl ih⟩

theorem same_symm {p q : PackageReport} (h : p.same q = true) : q.same p = true := by
  induction p using induction_subpackages generalizing q with
  | step p ih =>
    obtain ⟨hname, hclasses, hsubpackages⟩ := same_iff.mp h
    exact same_iff.mpr ⟨hname.symm, fun c => (hclasses c).symm,
      hsubpackages.symm fun s hs _ hst => ih s hs hst⟩

theorem same_trans {p q r : PackageReport} (hpq : p.same q = true) (hqr : q.same r = true) :
    p.same r = true := by
  induction p using induction_subpackages generalizing q r with
  | step p ih =>
    obtain ⟨hname, hclasses, hsubpackages⟩ := same_iff.mp hpq
    obtain ⟨hname', hclasses', hsubpackages'⟩ := same_iff.mp hqr
    exact same_iff.mpr ⟨hname.trans hname', fun c => (hclasses c).trans (hclasses' c),
      hsubpackages.trans hsubpackages' fun s hs _ _ _ hst htu => ih s hs hst htu⟩

@[simp] theorem mem_distinctClasses {c : ClassReport} {cs : List ClassReport} :
    c ∈ distinctClasses cs ↔ c ∈ cs := by
  induction cs with
  | nil => simp [distinctClasses]
  | cons d cs ih =>
    simp only [distinctClasses, List.mem_cons, List.mem_filter, ih, decide_eq_true_eq]
    by_cases heq : c = d <;> simp [heq]

theorem nodup_distinctClasses (cs : List ClassReport) : (distinctClasses cs).Nodup := by
  induction cs with
  | nil => exact List.nodup_nil
  | cons c cs ih => exact List.nodup_cons.mpr ⟨by simp, ih.filter _⟩

theorem mem_of_mem_distinct {p : PackageReport} {ps : List PackageReport} (h : p ∈ distinct ps) :
    p ∈ ps := by
  induction ps with
  | nil => simp [distinct] at h
  | cons q ps ih =>
    obtain rfl | hrest := List.mem_cons.mp h
    · exact List.mem_cons_self
    · exact List.mem_cons_of_mem q (ih (List.mem_filter.mp hrest).1)

theorem exists_same_of_mem {p : PackageReport} {ps : List PackageReport} (h : p ∈ ps) :
    ∃ q ∈ distinct ps, p.same q = true := by
  induction ps with
  | nil => simp at h
  | cons q ps ih =>
    obtain rfl | hrest := List.mem_cons.mp h
    · exact ⟨p, List.mem_cons_self, same_refl p⟩
    · obtain ⟨r, hr, hpr⟩ := ih hrest
      by_cases hqr : q.same r = true
      · exact ⟨q, List.mem_cons_self, same_trans hpr (same_symm hqr)⟩
      · exact ⟨r, List.mem_cons_of_mem q (List.mem_filter.mpr ⟨hr, by simpa using hqr⟩), hpr⟩

/-- Leaving out repetitions presents the same set. -/
theorem matched_distinct (ps : List PackageReport) :
    Matched (fun p q => p.same q = true) ps (distinct ps) :=
  ⟨fun _ hp => exists_same_of_mem hp, fun q hq => ⟨q, mem_of_mem_distinct hq, same_refl q⟩⟩

/-- Among the distinct packages no two are the same. -/
theorem pairwise_distinct (ps : List PackageReport) :
    (distinct ps).Pairwise fun p q => p.same q = false := by
  induction ps with
  | nil => exact List.Pairwise.nil
  | cons p ps ih =>
    refine List.pairwise_cons.mpr ⟨fun q hq => ?_, ih.filter _⟩
    simpa using (List.mem_filter.mp hq).2

end TypeAtlas.PackageReport

namespace TypeAtlas.Report

theorem same_ofProject_iff {p q : ProjectReport} :
    (ofProject p).same (ofProject q) = true ↔ p.projectName = q.projectName ∧
      Matched (fun s t => s.same t = true) p.packages q.packages := by
  rw [same, ProjectReport.same, Bool.and_eq_true, decide_eq_true_eq, PackageReport.sameSet_iff]

theorem same_refl (r : Report) : r.same r = true := by
  cases r with
  | ofClass c => simp [same]
  | ofPackage p => exact p.same_refl
  | ofProject p => exact same_ofProject_iff.mpr ⟨rfl, matched_refl fun q _ => q.same_refl⟩

theorem same_trans {r s t : Report} (hrs : r.same s = true) (hst : s.same t = true) :
    r.same t = true := by
  cases r with
  | ofClass c => cases s <;> cases t <;> simp_all [same]
  | ofPackage p =>
    cases s <;> cases t <;> simp only [same, Bool.false_eq_true] at hrs hst
    exact PackageReport.same_trans hrs hst
  | ofProject p =>
    cases s <;> cases t <;> simp only [same, Bool.false_eq_true] at hrs hst
    obtain ⟨hname, hpackages⟩ := same_ofProject_iff.mp hrs
    obtain ⟨hname', hpackages'⟩ := same_ofProject_iff.mp hst
    exact same_ofProject_iff.mpr ⟨hname.trans hname',
      hpackages.trans hpackages' fun _ _ _ _ _ h h' => PackageReport.same_trans h h'⟩

end TypeAtlas.Report
