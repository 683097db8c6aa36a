import TypeAtlas.Text.Basic

namespace TypeAtlas

/-- A finite set of names, kept in increasing order by code point. Sets with the same members are
therefore equal. -/
structure NameSet where
  toList : List Text
  sorted : toList.Pairwise (· < ·) := by simp
  deriving DecidableEq

namespace NameSet

instance : Membership Text NameSet := ⟨fun s n => n ∈ s.toList⟩

theorem mem_toList {n : Text} {s : NameSet} : n ∈ s.toList ↔ n ∈ s := Iff.rfl

instance (n : Text) (s : NameSet) : Decidable (n ∈ s) :=
  inferInstanceAs (Decidable (n ∈ s.toList))

def empty : NameSet := { toList := [] }

instance : Inhabited NameSet := ⟨empty⟩

/-- Puts a name in its place among sorted names. -/
def insertSorted (n : Text) : List Text → List Text
  | [] => [n]
  | m :: ms => if n < m then n :: m :: ms else if n = m then m :: ms else m :: insertSorted n ms

theorem mem_insertSorted {n m : Text} {ms : List Text} :
    m ∈ insertSorted n ms ↔ m = n ∨ m ∈ ms := by
  induction ms with
  | nil => simp [insertSorted]
  | cons k ks ih =>
    simp only [insertSorted]
    split
    · simp
    · split
      · rename_i heq
        subst heq
        simp
      · simp only [List.mem_cons, ih]
        constructor
        · rintro (h | h | h) <;> simp [h]
        · rintro (h | h | h) <;> simp [h]

theorem lt_of_not_lt {n m : Text} (h : ¬ n < m) (hne : n ≠ m) : m < n := by
  apply Classical.byContradiction
  intro hnot
  exact hne (List.le_antisymm (List.not_lt.mp hnot) (List.not_lt.mp h))

theorem pairwise_insertSorted {n : Text} {ms : List Text} (h : ms.Pairwise (· < ·)) :
    (insertSorted n ms).Pairwise (· < ·) := by
  induction ms with
  | nil => simp [insertSorted]
  | cons k ks ih =>
    have hk := List.pairwise_cons.mp h
    simp only [insertSorted]
    split
    · rename_i hlt
      refine List.pairwise_cons.mpr ⟨fun m hm => ?_, h⟩
      rcases List.mem_cons.mp hm with rfl | hm
      · exact hlt
      · exact List.lt_trans hlt (hk.1 m hm)
    · split
      · exact h
      · rename_i hnot hne
        refine List.pairwise_cons.mpr ⟨fun m hm => ?_, ih hk.2⟩
        rcases mem_insertSorted.mp hm with rfl | hm
        · exact lt_of_not_lt hnot hne
        · exact hk.1 m hm

def insert (n : Text) (s : NameSet) : NameSet :=
  { toList := insertSorted n s.toList, sorted := pairwise_insertSorted s.sorted }

def ofList (names : List Text) : NameSet :=
  names.foldr insert empty

def filter (p : Text → Bool) (s : NameSet) : NameSet :=
  { toList := s.toList.filter p, sorted := s.sorted.sublist List.filter_sublist }

def size (s : NameSet) : Nat :=
  s.toList.length

@[simp] theorem not_mem_empty {n : Text} : ¬ n ∈ empty := by
  simp [← mem_toList, empty]

@[simp] theorem mem_insert {n m : Text} {s : NameSet} : m ∈ s.insert n ↔ m = n ∨ m ∈ s :=
  mem_insertSorted

@[simp] theorem mem_ofList {n : Text} {names : List Text} : n ∈ ofList names ↔ n ∈ names := by
  induction names with
  | nil => simp [ofList]
  | cons m ms ih =>
    have hcons : ofList (m :: ms) = (ofList ms).insert m := rfl
    simp [hcons, ih]

@[simp] theorem mem_filter {p : Text → Bool} {n : Text} {s : NameSet} :
    n ∈ s.filter p ↔ n ∈ s ∧ p n = true := by
  simp [← mem_toList, filter]

/-- Increasing lists with the same members are equal. -/
theorem eq_of_pairwise {xs ys : List Text} (hx : xs.Pairwise (· < ·)) (hy : ys.Pairwise (· < ·))
    (h : ∀ n, n ∈ xs ↔ n ∈ ys) : xs = ys := by
  induction xs generalizing ys with
  | nil =>
    cases ys with
    | nil => rfl
    | cons y ys => exact absurd ((h y).mpr List.mem_cons_self) (by simp)
  | cons x xs ih =>
    cases ys with
    | nil => exact absurd ((h x).mp List.mem_cons_self) (by simp)
    | cons y ys =>
      have hx' := List.pairwise_cons.mp hx
      have hy' := List.pairwise_cons.mp hy
      have hxy : x = y := by
        rcases List.mem_cons.mp ((h x).mp List.mem_cons_self) with heq | hmem
        · exact heq
        · rcases List.mem_cons.mp ((h y).mpr List.mem_cons_self) with heq | hmem'
          · exact heq.symm
          · exact absurd (hx'.1 y hmem') (List.lt_asymm (hy'.1 x hmem))
      subst hxy
      congr 1
      refine ih hx'.2 hy'.2 fun n => ?_
      constructor
      · intro hn
        rcases List.mem_cons.mp ((h n).mp (List.mem_cons_of_mem _ hn)) with heq | hmem
        · exact absurd (hx'.1 n hn) (heq ▸ List.lt_irrefl x)
        · exact hmem
      · intro hn
        rcases List.mem_cons.mp ((h n).mpr (List.mem_cons_of_mem _ hn)) with heq | hmem
        · exact absurd (hy'.1 n hn) (heq ▸ List.lt_irrefl x)
        · exact hmem

theorem ext {s t : NameSet} (h : ∀ n, n ∈ s ↔ n ∈ t) : s = t := by
  obtain ⟨xs, hx⟩ := s
  obtain ⟨ys, hy⟩ := t
  have heq : xs = ys := eq_of_pairwise hx hy h
  subst heq
  rfl

end NameSet

end TypeAtlas
