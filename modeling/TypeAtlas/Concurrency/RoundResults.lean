import TypeAtlas.Concurrency.Rounds

namespace TypeAtlas.Concurrency.Job

variable {ν ε α : Type}

/-- Two results have the same value, or neither has one. Two failures may differ: which one comes
first depends on the order in which the work is done. -/
def SameValue {β : Type} (r s : Except ε β) : Prop :=
  r.toOption = s.toOption

theorem results_of_allDone? {js : List (Job ν ε α)} {found : List α}
    (h : allDone? js = some found) : results js = .ok found := by
  induction js generalizing found with
  | nil =>
    cases h
    rfl
  | cons j js ih =>
    cases j with
    | done a =>
      simp only [allDone?, done?, Option.bind_eq_bind, Option.bind_some, Option.pure_def,
        Option.bind_eq_some_iff, Option.some.injEq] at h
      obtain ⟨rest, hrest, rfl⟩ := h
      simp [results, result, ih hrest, bind, Except.bind, pure, Except.pure]
    | fail e => simp [allDone?, done?] at h
    | operation notes next => simp [allDone?, done?] at h
    | join parts combine => simp [allDone?, done?] at h

mutual

/-- A round does not change what comes of a job. -/
theorem result_round (lost : Nat → List ν) (performs : Bool) (j : Job ν ε α) :
    SameValue ((j.round lost performs).2 >>= result) j.result := by
  cases j with
  | done a => rfl
  | fail e => rfl
  | operation notes next =>
    cases performs with
    | false => rfl
    | true => simpa [round, result] using result_round lost false next
  | join parts combine =>
    have h := results_roundAll lost performs 0 parts
    rw [round, result]
    rcases hround : roundAll lost performs 0 parts with ⟨notes, r⟩
    rw [hround] at h
    cases r with
    | error e =>
      cases hparts : results parts with
      | error e' => rfl
      | ok found => simp [SameValue, hparts, bind, Except.bind, Except.toOption] at h
    | ok rest =>
      simp only [SameValue, bind, Except.bind] at h
      cases hdone : allDone? rest with
      | none =>
        simp only [SameValue, hdone, bind, Except.bind, result]
        cases hrest : results rest <;> cases hparts : results parts <;>
          simp_all [Except.toOption, Except.map]
      | some found =>
        rw [results_of_allDone? hdone] at h
        simp only [SameValue, hdone, bind, Except.bind, result]
        cases hparts : results parts <;> simp_all [Except.toOption, Except.map]

theorem results_roundAll (lost : Nat → List ν) (performs : Bool) (undone : Nat)
    (js : List (Job ν ε α)) :
    SameValue ((roundAll lost performs undone js).2 >>= results) (results js) := by
  match js with
  | [] => rfl
  | j :: js =>
    have hj := result_round lost performs j
    rw [roundAll, results]
    rcases hround : j.round lost performs with ⟨notes, r⟩
    rw [hround] at hj
    cases r with
    | error e =>
      cases hresult : j.result with
      | error e' => rfl
      | ok a => simp [SameValue, hresult, bind, Except.bind, Except.toOption] at hj
    | ok rest =>
      have hjs := results_roundAll lost performs (if rest.isDone then undone else undone + 1) js
      rcases hall : roundAll lost performs (if rest.isDone then undone else undone + 1) js with
        ⟨more, others⟩
      rw [hall] at hjs
      simp only [SameValue, bind, Except.bind, hall] at hj hjs ⊢
      cases others with
      | error e =>
        cases hresult : j.result <;> cases hresults : results js <;>
          simp_all [Except.toOption, Except.map]
      | ok others =>
        simp only [Except.map, results, bind, Except.bind]
        cases hrest : rest.result <;> cases hresult : j.result <;>
          cases hothers : results others <;> cases hresults : results js <;>
            simp_all [Except.toOption, pure, Except.pure]

end

theorem result_rounds (lost : Nat → List ν) (n : Nat) (j : Job ν ε α) :
    SameValue (rounds lost n j).2 j.result := by
  induction n generalizing j with
  | zero => rfl
  | succ n ih =>
    have h := result_round lost true j
    rw [rounds]
    rcases hround : j.round lost true with ⟨notes, r⟩
    rw [hround] at h
    cases r with
    | error e => exact h
    | ok rest => exact (ih rest).trans h

/-- Done in rounds, a job has the value that it has when done in order. -/
theorem result_run (lost : Nat → List ν) (j : Job ν ε α) : SameValue (j.run lost).2 j.result := by
  have h := result_round lost false j
  rw [run]
  rcases hround : j.round lost false with ⟨notes, r⟩
  rw [hround] at h
  cases r with
  | error e => exact h
  | ok begun => exact (result_rounds lost _ begun).trans h

end TypeAtlas.Concurrency.Job
