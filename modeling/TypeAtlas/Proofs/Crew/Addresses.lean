import TypeAtlas.Concurrency.Crew

namespace TypeAtlas.Concurrency.Worker

variable {ν ε α : Type}

@[simp] theorem at?_cons (w : Worker ν ε α) (i : Nat) (rest : Address) :
    w.at? (i :: rest) = w.parts[i]?.bind fun p => p.at? rest := rfl

theorem at?_append (w : Worker ν ε α) (a b : Address) :
    w.at? (a ++ b) = (w.at? a).bind fun x => x.at? b := by
  induction a generalizing w with
  | nil => rfl
  | cons i rest ih =>
    rw [List.cons_append, at?_cons, at?_cons]
    cases w.parts[i]? with
    | none => rfl
    | some p => exact ih p

theorem update_append (w : Worker ν ε α) (f : Worker ν ε α → Worker ν ε α) (a b : Address) :
    w.update f (a ++ b) = w.update (·.update f b) a := by
  induction a generalizing w with
  | nil => rfl
  | cons i rest ih =>
    obtain ⟨job, stage, off, parts⟩ := w
    simp only [List.cons_append, update]
    congr 2
    funext p
    exact ih p

theorem update_update (w : Worker ν ε α) (f g : Worker ν ε α → Worker ν ε α) (a : Address) :
    (w.update f a).update g a = w.update (g ∘ f) a := by
  induction a generalizing w with
  | nil => rfl
  | cons i rest ih =>
    obtain ⟨job, stage, off, parts⟩ := w
    simp only [update, mk.injEq, true_and]
    rw [List.modify_modify_eq]
    congr 1
    funext p
    exact ih p

theorem update_eq_self {f : Worker ν ε α → Worker ν ε α} (h : ∀ x, f x = x) (w : Worker ν ε α)
    (a : Address) : w.update f a = w := by
  induction a generalizing w with
  | nil => exact h w
  | cons i rest ih =>
    obtain ⟨job, stage, off, parts⟩ := w
    have hid : (fun p : Worker ν ε α => p.update f rest) = id := funext ih
    simp only [update, hid, List.modify_id]

theorem update_of_absent {w : Worker ν ε α} {f : Worker ν ε α → Worker ν ε α} {a : Address}
    (h : w.at? a = none) : w.update f a = w := by
  induction a generalizing w with
  | nil => cases h
  | cons i rest ih =>
    obtain ⟨job, stage, off, parts⟩ := w
    simp only [update, mk.injEq, true_and]
    apply List.ext_getElem?
    intro k
    rw [List.getElem?_modify]
    cases hk : parts[k]? with
    | none => simp
    | some p =>
      by_cases hik : i = k
      · subst hik
        rw [at?_cons, Worker.parts, hk] at h
        simp [ih h]
      · simp [hik]

theorem update_congr {w x : Worker ν ε α} {f g : Worker ν ε α → Worker ν ε α} {a : Address}
    (ha : w.at? a = some x) (h : f x = g x) : w.update f a = w.update g a := by
  induction a generalizing w with
  | nil =>
    obtain rfl := Option.some.inj ha
    exact h
  | cons i rest ih =>
    obtain ⟨job, stage, off, parts⟩ := w
    rw [at?_cons, Worker.parts] at ha
    obtain ⟨p, hp, hrest⟩ := Option.bind_eq_some_iff.mp ha
    simp only [update, mk.injEq, true_and]
    apply List.ext_getElem?
    intro k
    by_cases hik : i = k
    · subst hik
      rw [List.getElem?_modify_eq, List.getElem?_modify_eq, hp]
      exact congrArg some (ih hrest)
    · rw [List.getElem?_modify_ne _ _ hik, List.getElem?_modify_ne _ _ hik]

@[simp] theorem isCalledOff_update_cons (w : Worker ν ε α) (f : Worker ν ε α → Worker ν ε α)
    (i : Nat) (rest : Address) : (w.update f (i :: rest)).isCalledOff = w.isCalledOff := by
  cases w
  rfl

theorem parts_update_cons (w : Worker ν ε α) (f : Worker ν ε α → Worker ν ε α) (i : Nat)
    (rest : Address) :
    (w.update f (i :: rest)).parts = w.parts.modify i fun p => p.update f rest := by
  cases w
  rfl

/-- What is below the changed worker is below the result of the change. -/
theorem at?_update_append (w : Worker ν ε α) (f : Worker ν ε α → Worker ν ε α) (a b : Address) :
    (w.update f a).at? (a ++ b) = (w.at? a).bind fun x => (f x).at? b := by
  induction a generalizing w with
  | nil => rfl
  | cons i rest ih =>
    rw [List.cons_append, at?_cons, at?_cons, parts_update_cons, List.getElem?_modify_eq]
    cases w.parts[i]? with
    | none => rfl
    | some p => exact ih p

theorem at?_update_self (w : Worker ν ε α) (f : Worker ν ε α → Worker ν ε α) (a : Address) :
    (w.update f a).at? a = (w.at? a).map f := by
  have h := at?_update_append w f a []
  rw [List.append_nil] at h
  rw [h]
  cases w.at? a <;> rfl

/-- What there is to know of a worker without looking at its parts. -/
structure Head (ν ε α : Type) where
  job : Job ν ε α
  stage : Stage ε α
  isCalledOff : Bool
  partCount : Nat

/-- Only a worker that has not ended can be told to give up. -/
def Head.callOff (h : Head ν ε α) : Head ν ε α :=
  match h.stage with
  | .ended _ => h
  | _ => { h with isCalledOff := true }

def head : Worker ν ε α → Head ν ε α
  | .mk job stage isCalledOff parts => ⟨job, stage, isCalledOff, parts.length⟩

theorem head_callOff (w : Worker ν ε α) : w.callOff.head = w.head.callOff := by
  obtain ⟨job, stage, off, parts⟩ := w
  cases stage <;> rfl

theorem parts_callOff (w : Worker ν ε α) : w.callOff.parts = w.parts := by
  obtain ⟨job, stage, off, parts⟩ := w
  cases stage <;> rfl

def head? (w : Worker ν ε α) (a : Address) : Option (Head ν ε α) :=
  (w.at? a).map head

theorem head_update_cons (w : Worker ν ε α) (f : Worker ν ε α → Worker ν ε α) (i : Nat)
    (rest : Address) : (w.update f (i :: rest)).head = w.head := by
  cases w
  simp [head, update]

/-- A change is not seen at any address that does not lead to or through the changed worker. -/
theorem head?_update_of_not_above {w : Worker ν ε α} {f : Worker ν ε α → Worker ν ε α}
    {a b : Address} (h : ¬ a <+: b) : (w.update f a).head? b = w.head? b := by
  induction a generalizing w b with
  | nil => exact absurd List.nil_prefix h
  | cons i rest ih =>
    cases b with
    | nil => exact congrArg some (head_update_cons w f i rest)
    | cons k below =>
      rw [head?, head?, at?_cons, at?_cons, parts_update_cons]
      by_cases hik : i = k
      · subst hik
        rw [List.getElem?_modify_eq]
        cases w.parts[i]? with
        | none => rfl
        | some p => exact ih fun hstart => h (List.cons_prefix_cons.mpr ⟨rfl, hstart⟩)
      · rw [List.getElem?_modify_ne _ _ hik]

/-- A change that leaves the parts of a worker alone is seen only there. -/
theorem head?_update_of_ne {w x : Worker ν ε α} {f : Worker ν ε α → Worker ν ε α} {a b : Address}
    (ha : w.at? a = some x) (hparts : (f x).parts = x.parts) (h : b ≠ a) :
    (w.update f a).head? b = w.head? b := by
  by_cases hstart : a <+: b
  · obtain ⟨below, rfl⟩ := hstart
    cases below with
    | nil => exact absurd (List.append_nil a) h
    | cons i rest =>
      rw [head?, head?, at?_update_append, at?_append, ha, Option.bind_some, Option.bind_some,
        at?_cons, at?_cons, hparts]
  · exact head?_update_of_not_above hstart

theorem head?_update_self {w x : Worker ν ε α} {f : Worker ν ε α → Worker ν ε α} {a : Address}
    (ha : w.at? a = some x) : (w.update f a).head? a = some (f x).head := by
  rw [head?, at?_update_self, ha]
  rfl

end TypeAtlas.Concurrency.Worker
