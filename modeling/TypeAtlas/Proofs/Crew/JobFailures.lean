import TypeAtlas.Concurrency.Job

namespace TypeAtlas.Concurrency.Job

variable {ν ε α : Type}

/-- `j.Fails e` says that `e` is one of the failures that can come up in doing `j`, in whatever
order its parts are done. -/
inductive Fails : Job ν ε α → ε → Prop
  | fail {e : ε} : Fails (.fail e) e
  | operation {notes : List ν} {next : Job ν ε α} {e : ε} :
      Fails next e → Fails (.operation notes next) e
  | part {parts : List (Job ν ε α)} {combine : List α → List ν × α} {j : Job ν ε α} {e : ε} :
      j ∈ parts → Fails j e → Fails (.join parts combine) e

/-- `j.Comes k` says that `k` is what is left of `j` after some operations. -/
inductive Comes (j : Job ν ε α) : Job ν ε α → Prop
  | whole : Comes j j
  | next {notes : List ν} {k : Job ν ε α} : Comes j (.operation notes k) → Comes j k

theorem Comes.result_eq {j k : Job ν ε α} (h : j.Comes k) : j.result = k.result := by
  induction h with
  | whole => rfl
  | next _ ih => rw [ih, result]

theorem Comes.fails {j k : Job ν ε α} (h : j.Comes k) {e : ε} (hk : k.Fails e) : j.Fails e := by
  induction h with
  | whole => exact hk
  | next _ ih => exact ih (.operation hk)

theorem results_cons_eq_ok {j : Job ν ε α} {js : List (Job ν ε α)} {vs : List α} :
    results (j :: js) = .ok vs ↔
      ∃ v rest, j.result = .ok v ∧ results js = .ok rest ∧ vs = v :: rest := by
  rw [results]
  cases j.result <;> cases results js <;>
    simp [bind, Except.bind, pure, Except.pure, eq_comm]

theorem result_of_mem {js : List (Job ν ε α)} {vs : List α} (h : results js = .ok vs)
    {j : Job ν ε α} (hj : j ∈ js) : ∃ v, j.result = .ok v := by
  induction js generalizing vs with
  | nil => cases hj
  | cons k ks ih =>
    obtain ⟨v, rest, hk, hks, _⟩ := results_cons_eq_ok.mp h
    rcases List.mem_cons.mp hj with rfl | hmem
    · exact ⟨v, hk⟩
    · exact ih hks hmem

/-- Nothing can fail in a job that has a result. -/
theorem not_fails_of_result {j : Job ν ε α} {v : α} (h : j.result = .ok v) (e : ε) :
    ¬ j.Fails e := by
  intro hfails
  induction hfails generalizing v with
  | fail => cases h
  | operation _ ih => exact ih h
  | @part parts combine k e hk _ ih =>
    rw [result] at h
    cases hparts : results parts with
    | error e => simp [hparts, Except.map] at h
    | ok vs =>
      obtain ⟨w, hw⟩ := result_of_mem hparts hk
      exact ih hw

end TypeAtlas.Concurrency.Job
