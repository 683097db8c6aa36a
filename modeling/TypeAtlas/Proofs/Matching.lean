import Mathlib.Data.List.Forall2
import TypeAtlas.Proofs.Except

namespace TypeAtlas

variable {α β γ : Type}

/-- Each member of either list has a partner in the other. -/
def Matched (R : α → β → Prop) (xs : List α) (ys : List β) : Prop :=
  (∀ x ∈ xs, ∃ y ∈ ys, R x y) ∧ ∀ y ∈ ys, ∃ x ∈ xs, R x y

theorem matched_refl {R : α → α → Prop} {xs : List α} (h : ∀ x ∈ xs, R x x) : Matched R xs xs :=
  ⟨fun x hx => ⟨x, hx, h x hx⟩, fun x hx => ⟨x, hx, h x hx⟩⟩

/-- Lists with the same members are matched. -/
theorem matched_of_mem_iff {R : α → α → Prop} {xs ys : List α} (hr : ∀ x, R x x)
    (h : ∀ x, x ∈ xs ↔ x ∈ ys) : Matched R xs ys :=
  ⟨fun x hx => ⟨x, (h x).mp hx, hr x⟩, fun y hy => ⟨y, (h y).mpr hy, hr y⟩⟩

theorem matched_eq_iff {xs ys : List α} : Matched Eq xs ys ↔ ∀ x, x ∈ xs ↔ x ∈ ys := by
  simp [Matched, forall_and, iff_def]

theorem matched_of_forall₂ {R : α → β → Prop} {xs : List α} {ys : List β}
    (h : List.Forall₂ R xs ys) : Matched R xs ys :=
  ⟨fun _ hx => exists_of_forall₂_left h hx, fun _ hy => exists_of_forall₂_right h hy⟩

theorem matched_map_iff {δ : Type} {R : γ → δ → Prop} {f : α → γ} {g : β → δ} {xs : List α}
    {ys : List β} : Matched R (xs.map f) (ys.map g) ↔ Matched (fun x y => R (f x) (g y)) xs ys := by
  simp [Matched]

/-- Lists with the same image are matched by having the same image. -/
theorem matched_of_map_eq {f : α → γ} {g : β → γ} {xs : List α} {ys : List β}
    (h : xs.map f = ys.map g) : Matched (fun x y => f x = g y) xs ys := by
  have hall : List.Forall₂ Eq (xs.map f) (ys.map g) := by
    rw [List.forall₂_eq_eq_eq]
    exact h
  exact matched_of_forall₂ (List.forall₂_map_left_iff.mp (List.forall₂_map_right_iff.mp hall))

/-- Lists that differ in one place are matched if what stands there is. -/
theorem matched_splice {R : α → α → Prop} (hr : ∀ x, R x x) {x y : α} (h : R x y)
    (before after : List α) : Matched R (before ++ x :: after) (before ++ y :: after) := by
  have hself : ∀ xs : List α, List.Forall₂ R xs xs :=
    fun xs => List.forall₂_same.mpr fun z _ => hr z
  exact matched_of_forall₂ (List.rel_append (hself before) (.cons h (hself after)))

namespace Matched

variable {R : α → β → Prop} {xs : List α} {ys : List β}

theorem symm {S : β → α → Prop} (h : Matched R xs ys) (hs : ∀ x ∈ xs, ∀ y, R x y → S y x) :
    Matched S ys xs := by
  obtain ⟨hthere, hback⟩ := h
  constructor
  · intro y hy
    obtain ⟨x, hx, hxy⟩ := hback y hy
    exact ⟨x, hx, hs x hx y hxy⟩
  · intro x hx
    obtain ⟨y, hy, hxy⟩ := hthere x hx
    exact ⟨y, hy, hs x hx y hxy⟩

theorem trans {S : β → γ → Prop} {T : α → γ → Prop} {zs : List γ} (h : Matched R xs ys)
    (h' : Matched S ys zs) (ht : ∀ x ∈ xs, ∀ y ∈ ys, ∀ z, R x y → S y z → T x z) :
    Matched T xs zs := by
  obtain ⟨hthere, hback⟩ := h
  obtain ⟨hthere', hback'⟩ := h'
  constructor
  · intro x hx
    obtain ⟨y, hy, hxy⟩ := hthere x hx
    obtain ⟨z, hz, hyz⟩ := hthere' y hy
    exact ⟨z, hz, ht x hx y hy z hxy hyz⟩
  · intro z hz
    obtain ⟨y, hy, hyz⟩ := hback' z hz
    obtain ⟨x, hx, hxy⟩ := hback y hy
    exact ⟨x, hx, ht x hx y hy z hxy hyz⟩

theorem imp {S : α → β → Prop} (h : Matched R xs ys)
    (hs : ∀ x ∈ xs, ∀ y ∈ ys, R x y → S x y) : Matched S xs ys := by
  obtain ⟨hthere, hback⟩ := h
  constructor
  · intro x hx
    obtain ⟨y, hy, hxy⟩ := hthere x hx
    exact ⟨y, hy, hs x hx y hy hxy⟩
  · intro y hy
    obtain ⟨x, hx, hxy⟩ := hback y hy
    exact ⟨x, hx, hs x hx y hy hxy⟩

theorem cons {x : α} {y : β} (hxy : R x y) (h : Matched R xs ys) :
    Matched R (x :: xs) (y :: ys) := by
  obtain ⟨hthere, hback⟩ := h
  constructor
  · rw [List.forall_mem_cons]
    refine ⟨⟨y, List.mem_cons_self, hxy⟩, fun z hz => ?_⟩
    obtain ⟨w, hw, hzw⟩ := hthere z hz
    exact ⟨w, List.mem_cons_of_mem y hw, hzw⟩
  · rw [List.forall_mem_cons]
    refine ⟨⟨x, List.mem_cons_self, hxy⟩, fun w hw => ?_⟩
    obtain ⟨z, hz, hzw⟩ := hback w hw
    exact ⟨z, List.mem_cons_of_mem x hz, hzw⟩

theorem filter {p : α → Bool} {q : β → Bool} (h : Matched R xs ys)
    (hpq : ∀ x y, R x y → q y = p x) : Matched R (xs.filter p) (ys.filter q) := by
  obtain ⟨hthere, hback⟩ := h
  constructor
  · intro x hx
    obtain ⟨hmem, hp⟩ := List.mem_filter.mp hx
    obtain ⟨y, hy, hxy⟩ := hthere x hmem
    exact ⟨y, List.mem_filter.mpr ⟨hy, (hpq x y hxy).trans hp⟩, hxy⟩
  · intro y hy
    obtain ⟨hmem, hq⟩ := List.mem_filter.mp hy
    obtain ⟨x, hx, hxy⟩ := hback y hmem
    exact ⟨x, List.mem_filter.mpr ⟨hx, (hpq x y hxy).symm.trans hq⟩, hxy⟩

theorem flatMap {δ : Type} {S : γ → δ → Prop} {f : α → List γ} {g : β → List δ}
    (h : Matched R xs ys) (hs : ∀ x y, R x y → Matched S (f x) (g y)) :
    Matched S (xs.flatMap f) (ys.flatMap g) := by
  obtain ⟨hthere, hback⟩ := h
  constructor
  · intro c hc
    obtain ⟨x, hx, hcx⟩ := List.mem_flatMap.mp hc
    obtain ⟨y, hy, hxy⟩ := hthere x hx
    obtain ⟨d, hd, hcd⟩ := (hs x y hxy).1 c hcx
    exact ⟨d, List.mem_flatMap.mpr ⟨y, hy, hd⟩, hcd⟩
  · intro d hd
    obtain ⟨y, hy, hdy⟩ := List.mem_flatMap.mp hd
    obtain ⟨x, hx, hxy⟩ := hback y hy
    obtain ⟨c, hc, hcd⟩ := (hs x y hxy).2 d hdy
    exact ⟨c, List.mem_flatMap.mpr ⟨x, hx, hc⟩, hcd⟩

/-- Lists that are matched by having the same image have the same images. -/
theorem mem_map_iff {f : α → γ} {g : β → γ} (h : Matched (fun x y => f x = g y) xs ys) (z : γ) :
    z ∈ xs.map f ↔ z ∈ ys.map g := by
  constructor
  · intro hz
    obtain ⟨x, hx, rfl⟩ := List.mem_map.mp hz
    obtain ⟨y, hy, hxy⟩ := h.1 x hx
    exact List.mem_map.mpr ⟨y, hy, hxy.symm⟩
  · intro hz
    obtain ⟨y, hy, rfl⟩ := List.mem_map.mp hz
    obtain ⟨x, hx, hxy⟩ := h.2 y hy
    exact List.mem_map.mpr ⟨x, hx, hxy⟩

end Matched

end TypeAtlas
