import TypeAtlas.Concurrency.RoundResults
import TypeAtlas.Proofs.Matching

namespace TypeAtlas

open Concurrency

variable {ε α β γ δ : Type} {R : α → β → Prop} {S : γ → δ → Prop}

/-- Two results agree if both are failures, or both are values that stand in the relation `R`. -/
inductive Agree (R : α → β → Prop) : Except ε α → Except ε β → Prop
  | ok {a : α} {b : β} : R a b → Agree R (.ok a) (.ok b)
  | error {e e' : ε} : Agree R (.error e) (.error e')

namespace Agree

theorem pure {a : α} {b : β} (h : R a b) :
    Agree R (pure a : Except ε α) (pure b : Except ε β) :=
  .ok h

theorem bind {x : Except ε α} {y : Except ε β} {f : α → Except ε γ} {g : β → Except ε δ}
    (h : Agree R x y) (hf : ∀ a b, R a b → Agree S (f a) (g b)) : Agree S (x >>= f) (y >>= g) := by
  cases h with
  | ok h => exact hf _ _ h
  | error => exact .error

theorem map {x : Except ε α} {y : Except ε β} {f : α → γ} {g : β → δ} (h : Agree R x y)
    (hf : ∀ a b, R a b → S (f a) (g b)) : Agree S (x.map f) (y.map g) := by
  cases h with
  | ok h => exact .ok (hf _ _ h)
  | error => exact .error

theorem mapError {ε' : Type} {f g : ε → ε'} {x : Except ε α} {y : Except ε β} (h : Agree R x y) :
    Agree R (x.mapError f) (y.mapError g) := by
  cases h with
  | ok h => exact .ok h
  | error => exact .error

theorem refl (x : Except ε α) : Agree Eq x x := by
  cases x with
  | ok a => exact .ok rfl
  | error e => exact .error

/-- Two mappings of a list agree if they do on each member. -/
theorem mapM {ξ : Type} {xs : List ξ} {f : ξ → Except ε α} {g : ξ → Except ε β}
    (h : ∀ x ∈ xs, Agree R (f x) (g x)) : Agree (List.Forall₂ R) (xs.mapM f) (xs.mapM g) := by
  induction xs with
  | nil => exact pure .nil
  | cons x xs ih =>
    rw [List.mapM_cons, List.mapM_cons]
    refine (h x List.mem_cons_self).bind fun a b hab => ?_
    have hrest := ih fun y hy => h y (List.mem_cons_of_mem x hy)
    exact hrest.bind fun as bs hall => pure (.cons hab hall)

theorem trans {ζ : Type} {T : β → ζ → Prop} {U : α → ζ → Prop} {x : Except ε α} {y : Except ε β}
    {z : Except ε ζ} (h : Agree R x y) (h' : Agree T y z) (hu : ∀ a b c, R a b → T b c → U a c) :
    Agree U x z := by
  cases h with
  | ok h =>
    cases h' with
    | ok h' => exact .ok (hu _ _ _ h h')
  | error =>
    cases h' with
    | error => exact .error

theorem exists_ok_left {x : Except ε α} {y : Except ε β} (h : Agree R x y) {a : α} (hx : x = .ok a) :
    ∃ b, y = .ok b ∧ R a b := by
  subst hx
  cases h with
  | ok h => exact ⟨_, rfl, h⟩

theorem exists_ok_right {x : Except ε α} {y : Except ε β} (h : Agree R x y) {b : β}
    (hy : y = .ok b) : ∃ a, x = .ok a ∧ R a b := by
  subst hy
  cases h with
  | ok h => exact ⟨_, rfl, h⟩

/-- Mappings of lists whose members have partners with which the mappings agree do agree. -/
theorem mapM_matched {ξ ζ : Type} {A : ξ → ζ → Prop} {xs : List ξ} {ys : List ζ}
    {f : ξ → Except ε α} {g : ζ → Except ε β} (h : Matched A xs ys)
    (hf : ∀ x y, A x y → Agree R (f x) (g y)) : Agree (Matched R) (xs.mapM f) (ys.mapM g) := by
  obtain ⟨hthere, hback⟩ := h
  cases hxs : xs.mapM f with
  | ok as =>
    have hall : ∀ y ∈ ys, ∃ b, g y = .ok b := by
      intro y hy
      obtain ⟨x, hx, hxy⟩ := hback y hy
      obtain ⟨a, _, ha⟩ := exists_ok_of_mapM_eq_ok hxs hx
      obtain ⟨b, hb, _⟩ := (hf x y hxy).exists_ok_left ha
      exact ⟨b, hb⟩
    obtain ⟨bs, hys⟩ := exists_mapM_eq_ok hall
    rw [hys]
    refine .ok ⟨fun a ha => ?_, fun b hb => ?_⟩
    · obtain ⟨x, hx, hok⟩ := (mem_of_mapM_eq_ok hxs).mp ha
      obtain ⟨y, hy, hxy⟩ := hthere x hx
      obtain ⟨b, hb, hab⟩ := (hf x y hxy).exists_ok_left hok
      exact ⟨b, (mem_of_mapM_eq_ok hys).mpr ⟨y, hy, hb⟩, hab⟩
    · obtain ⟨y, hy, hok⟩ := (mem_of_mapM_eq_ok hys).mp hb
      obtain ⟨x, hx, hxy⟩ := hback y hy
      obtain ⟨a, ha, hab⟩ := (hf x y hxy).exists_ok_right hok
      exact ⟨a, (mem_of_mapM_eq_ok hxs).mpr ⟨x, hx, ha⟩, hab⟩
  | error e =>
    cases hys : ys.mapM g with
    | error e' => exact .error
    | ok bs =>
      have hall : ∀ x ∈ xs, ∃ a, f x = .ok a := by
        intro x hx
        obtain ⟨y, hy, hxy⟩ := hthere x hx
        obtain ⟨b, _, hb⟩ := exists_ok_of_mapM_eq_ok hys hy
        obtain ⟨a, ha, _⟩ := (hf x y hxy).exists_ok_right hb
        exact ⟨a, ha⟩
      obtain ⟨as, has⟩ := exists_mapM_eq_ok hall
      cases hxs.symm.trans has

theorem mapM_eq {ξ : Type} {xs : List ξ} {f g : ξ → Except ε α}
    (h : ∀ x ∈ xs, Agree Eq (f x) (g x)) : Agree Eq (xs.mapM f) (xs.mapM g) := by
  have hall := mapM h
  rwa [List.forall₂_eq_eq_eq] at hall

/-- The relation may be replaced by one that holds of the two values in question. -/
theorem imp {R' : α → β → Prop} {x : Except ε α} {y : Except ε β} (h : Agree R x y)
    (himp : ∀ a b, x = .ok a → y = .ok b → R a b → R' a b) : Agree R' x y := by
  cases h with
  | ok h => exact .ok (himp _ _ rfl rfl h)
  | error => exact .error

/-- Agreement is about values and not about which failure it is. -/
theorem of_sameValue {x x' : Except ε α} {y y' : Except ε β} (hx : Job.SameValue x x')
    (hy : Job.SameValue y y') (h : Agree R x' y') : Agree R x y := by
  cases h with
  | @ok a b h =>
    cases x with
    | error e => cases hx
    | ok a' =>
      cases y with
      | error e => cases hy
      | ok b' =>
        obtain rfl : a' = a := Option.some.inj hx
        obtain rfl : b' = b := Option.some.inj hy
        exact .ok h
  | error =>
    cases x with
    | ok a => cases hx
    | error e =>
      cases y with
      | ok b => cases hy
      | error e' => exact .error

end Agree

end TypeAtlas
