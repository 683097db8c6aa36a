import Mathlib.Algebra.BigOperators.Group.List.Basic
import TypeAtlas.Proofs.Report.Same
import TypeAtlas.Report.Outline

namespace TypeAtlas

variable {α β : Type}

theorem NameSet.toList_injective {s t : NameSet} (h : s.toList = t.toList) : s = t :=
  NameSet.ext fun n => by rw [← NameSet.mem_toList, h, NameSet.mem_toList]

theorem sortedBy_perm (name : α → Text) (xs : List α) : (sortedBy name xs).Perm xs :=
  List.mergeSort_perm xs _

@[simp] theorem mem_sortedBy {name : α → Text} {x : α} {xs : List α} :
    x ∈ sortedBy name xs ↔ x ∈ xs :=
  List.mem_mergeSort

theorem pairwise_sortedBy (name : α → Text) (xs : List α) :
    (sortedBy name xs).Pairwise fun x y => ¬ name y < name x := by
  have htrans : ∀ x y z : α, decide (¬ name y < name x) = true →
      decide (¬ name z < name y) = true → decide (¬ name z < name x) = true := by
    intro x y z hxy hyz
    simp only [decide_eq_true_eq, List.not_lt] at hxy hyz ⊢
    exact List.le_trans hxy hyz
  have htotal : ∀ x y : α,
      (decide (¬ name y < name x) || decide (¬ name x < name y)) = true := by
    intro x y
    by_cases hlt : name y < name x
    · simp [List.lt_asymm hlt]
    · simp [hlt]
  have hsorted := List.pairwise_mergeSort htrans htotal xs
  exact hsorted.imp fun h => by simpa using h

/-- Members with names of their own are listed in strictly increasing order. -/
theorem pairwise_sortedBy_of_ne {name : α → Text} {xs : List α}
    (h : xs.Pairwise fun x y => name x ≠ name y) :
    (sortedBy name xs).Pairwise fun x y => name x < name y := by
  have hne : (sortedBy name xs).Pairwise fun x y => name x ≠ name y :=
    ((sortedBy_perm name xs).pairwise_iff fun hxy => hxy.symm).mpr h
  have hle := pairwise_sortedBy name xs
  refine (hle.and hne).imp ?_
  intro x y hxy
  exact NameSet.lt_of_not_lt hxy.1 hxy.2.symm

/-- Lists in strictly increasing order whose members are partners of each other are so member by
member. -/
theorem forall₂_of_matched {R : α → β → Prop} {f : α → Text} {g : β → Text} {xs : List α}
    {ys : List β} (hxs : xs.Pairwise fun x y => f x < f y) (hys : ys.Pairwise fun x y => g x < g y)
    (hname : ∀ x y, R x y → f x = g y) (h : Matched R xs ys) : List.Forall₂ R xs ys := by
  induction xs generalizing ys with
  | nil =>
    cases ys with
    | nil => exact .nil
    | cons y ys =>
      obtain ⟨x, hx, _⟩ := h.2 y List.mem_cons_self
      cases hx
  | cons x xs ih =>
    cases ys with
    | nil =>
      obtain ⟨y, hy, _⟩ := h.1 x List.mem_cons_self
      cases hy
    | cons y ys =>
      obtain ⟨hx, hxs⟩ := List.pairwise_cons.mp hxs
      obtain ⟨hy, hys⟩ := List.pairwise_cons.mp hys
      obtain ⟨hthere, hback⟩ := h
      -- The partner of the least member on either side can only be the least one on the other.
      have hxy : R x y := by
        obtain ⟨v, hv, hxv⟩ := hthere x List.mem_cons_self
        obtain ⟨u, hu, huy⟩ := hback y List.mem_cons_self
        obtain rfl | hv := List.mem_cons.mp hv
        · exact hxv
        · obtain rfl | hu := List.mem_cons.mp hu
          · exact huy
          · have hlt : f x < g y := hname u y huy ▸ hx u hu
            have hgt : g y < f x := hname x v hxv ▸ hy v hv
            exact absurd hgt (List.lt_asymm hlt)
      have hfg : f x = g y := hname x y hxy
      refine .cons hxy (ih hxs hys ⟨?_, ?_⟩)
      · intro u hu
        obtain ⟨v, hv, huv⟩ := hthere u (List.mem_cons_of_mem x hu)
        obtain rfl | hv := List.mem_cons.mp hv
        · have heq : f x = f u := hfg.trans (hname u _ huv).symm
          exact absurd (heq ▸ hx u hu) (List.lt_irrefl _)
        · exact ⟨v, hv, huv⟩
      · intro v hv
        obtain ⟨u, hu, huv⟩ := hback v (List.mem_cons_of_mem y hv)
        obtain rfl | hu := List.mem_cons.mp hu
        · have heq : g y = g v := hfg.symm.trans (hname _ v huv)
          exact absurd (heq ▸ hy v hv) (List.lt_irrefl _)
        · exact ⟨u, hu, huv⟩

namespace PackageReport

@[simp] theorem mem_sortedClasses {c : ClassReport} {p : PackageReport} :
    c ∈ p.sortedClasses ↔ c ∈ p.classes := by
  rw [sortedClasses, mem_sortedBy, mem_distinctClasses]

theorem mem_of_mem_sorted {p : PackageReport} {ps : List PackageReport} (h : p ∈ sorted ps) :
    p ∈ ps :=
  mem_of_mem_distinct (mem_sorted.mp h)

/-- The packages in order present the same set. -/
theorem matched_sorted (ps : List PackageReport) :
    Matched (fun p q => p.same q = true) ps (sorted ps) := by
  obtain ⟨hthere, hback⟩ := matched_distinct ps
  constructor
  · intro p hp
    obtain ⟨q, hq, hpq⟩ := hthere p hp
    exact ⟨q, mem_sorted.mpr hq, hpq⟩
  · intro q hq
    exact hback q (mem_sorted.mp hq)

/-- Packages are matched if they are in order. -/
theorem matched_of_sorted {R : PackageReport → PackageReport → Prop}
    (hleft : ∀ p q r : PackageReport, p.same q = true → R q r → R p r)
    (hright : ∀ p q r : PackageReport, R p q → q.same r = true → R p r) {ps qs : List PackageReport}
    (h : Matched R (sorted ps) (sorted qs)) : Matched R ps qs := by
  have hback : Matched (fun p q => p.same q = true) (sorted qs) qs :=
    (matched_sorted qs).symm fun _ _ _ hpq => same_symm hpq
  have hmiddle : Matched R ps (sorted qs) :=
    (matched_sorted ps).trans h fun p _ q _ r => hleft p q r
  exact hmiddle.trans hback fun p _ q _ r => hright p q r

theorem matched_of_matched_sorted {ps qs : List PackageReport}
    (h : Matched (fun p q => p.same q = true) (sorted ps) (sorted qs)) :
    Matched (fun p q => p.same q = true) ps qs :=
  matched_of_sorted (R := fun p q => p.same q = true) (fun _ _ _ => same_trans)
    (fun _ _ _ => same_trans) h

theorem mem_iff_of_sortedClasses_eq {p q : PackageReport} (h : p.sortedClasses = q.sortedClasses)
    (c : ClassReport) : c ∈ p.classes ↔ c ∈ q.classes := by
  rw [← mem_sortedClasses, h, mem_sortedClasses]

/-- All names of packages in the report satisfy `N`, and all classes `C`. -/
inductive Everywhere (N : Text → Prop) (C : ClassReport → Prop) : PackageReport → Prop
  | mk {p : PackageReport} : N p.packageName → (∀ c ∈ p.classes, C c) →
      (∀ q ∈ p.subpackages, Everywhere N C q) → Everywhere N C p

theorem Everywhere.mono {N N' : Text → Prop} {C C' : ClassReport → Prop}
    (hN : ∀ name, N name → N' name) (hC : ∀ c, C c → C' c) {p : PackageReport}
    (h : p.Everywhere N C) : p.Everywhere N' C' := by
  induction h with
  | mk hname hclasses _ ih => exact .mk (hN _ hname) (fun c hc => hC c (hclasses c hc)) ih

theorem json_eq (p : PackageReport) :
    p.json = .object [("package_name", .text p.packageName),
      ("classes", .array (p.sortedClasses.map ClassReport.json)),
      ("subpackages", .array ((sorted p.subpackages).map json))] := by
  rw [json]
  simp only [List.map_subtype, List.unattach_attach]

theorem outline_eq (depth : Nat) (p : PackageReport) :
    p.outline depth = outlineLine depth ("[" ++ p.packageName ++ "]") ::
      (p.sortedClasses.flatMap (ClassReport.outline (depth + 1)) ++
        (sorted p.subpackages).flatMap (outline (depth + 1))) := by
  rw [outline]
  simp only [List.flatMap_subtype, List.unattach_attach, List.cons_append]

theorem classCount_eq_sum_sorted (p : PackageReport) :
    p.classCount = p.sortedClasses.length + ((sorted p.subpackages).map classCount).sum := by
  have hclasses : p.sortedClasses.length = (distinctClasses p.classes).length :=
    (sortedBy_perm _ _).length_eq
  have hsubpackages : ((sorted p.subpackages).map classCount).sum =
      ((distinct p.subpackages).map classCount).sum :=
    ((sortedBy_perm _ _).map classCount).sum_eq
  rw [classCount_eq, hclasses, hsubpackages]

end PackageReport

/-- All names of packages and of the project in the report satisfy `N`, and all classes `C`. -/
def Report.Everywhere (N : Text → Prop) (C : ClassReport → Prop) : Report → Prop
  | .ofClass c => C c
  | .ofPackage p => p.Everywhere N C
  | .ofProject p => N p.projectName ∧ ∀ q ∈ p.packages, q.Everywhere N C

theorem Report.Everywhere.mono {N N' : Text → Prop} {C C' : ClassReport → Prop}
    (hN : ∀ name, N name → N' name) (hC : ∀ c, C c → C' c) {r : Report}
    (h : r.Everywhere N C) : r.Everywhere N' C' := by
  cases r with
  | ofClass c => exact hC c h
  | ofPackage p => exact PackageReport.Everywhere.mono hN hC h
  | ofProject p => exact ⟨hN _ h.1, fun q hq => (h.2 q hq).mono hN hC⟩

theorem ProjectReport.classCount_eq (p : ProjectReport) :
    p.classCount = ((PackageReport.sorted p.packages).map PackageReport.classCount).sum := by
  have hsum : ((PackageReport.sorted p.packages).map PackageReport.classCount).sum =
      ((PackageReport.distinct p.packages).map PackageReport.classCount).sum :=
    ((sortedBy_perm _ _).map PackageReport.classCount).sum_eq
  rw [hsum, classCount, List.sum_eq_foldl, List.foldl_map]

end TypeAtlas
