import Mathlib.Data.List.Perm.Basic
import TypeAtlas.Concurrency.RoundResults
import TypeAtlas.Proofs.Except

namespace TypeAtlas.Concurrency.Job

variable {ν ε α : Type}

mutual

/-- All notes on a job in which nothing fails. -/
def notes : Job ν ε α → List ν
  | .done _ | .fail _ => []
  | .operation notes next => notes ++ next.notes
  | .join parts combine =>
    notesOfAll parts ++ (results parts).toOption.elim [] fun found => (combine found).1

def notesOfAll : List (Job ν ε α) → List ν
  | [] => []
  | j :: js => j.notes ++ notesOfAll js

end

theorem notesOfAll_eq_flatMap (js : List (Job ν ε α)) : notesOfAll js = js.flatMap notes := by
  induction js with
  | nil => rfl
  | cons j js ih => rw [notesOfAll, ih, List.flatMap_cons]

theorem notesOfAll_eq_nil_of_allDone? {js : List (Job ν ε α)} {found : List α}
    (h : allDone? js = some found) : notesOfAll js = [] := by
  induction js generalizing found with
  | nil => rfl
  | cons j js ih =>
    cases j with
    | done a =>
      obtain ⟨rest, hrest, _⟩ := Option.bind_eq_some_iff.mp h
      rw [notesOfAll, notes, ih hrest, List.append_nil]
    | fail e => simp [allDone?, done?] at h
    | operation notes next => simp [allDone?, done?] at h
    | join parts combine => simp [allDone?, done?] at h

theorem perm_append_swap {β : Type} (as bs cs ds : List β) :
    ((as ++ bs) ++ (cs ++ ds)).Perm ((as ++ cs) ++ (bs ++ ds)) := by
  have hmiddle : (bs ++ cs).Perm (cs ++ bs) := List.perm_append_comm
  simpa only [List.append_assoc] using (hmiddle.append_right ds).append_left as

mutual

/-- The notes of a round are those by which what is left to note gets less. -/
theorem perm_notes_of_round (lost : Nat → List ν) (performs : Bool) (j : Job ν ε α)
    {rest : Job ν ε α} {made : List ν} (h : j.round lost performs = (made, .ok rest)) :
    (made ++ rest.notes).Perm j.notes := by
  cases j with
  | done a =>
    obtain ⟨rfl, hrest⟩ := Prod.mk.inj h
    obtain rfl := Except.ok.inj hrest
    exact .refl _
  | fail e => simp [round] at h
  | operation noted next =>
    cases performs with
    | false =>
      obtain ⟨rfl, hrest⟩ := Prod.mk.inj h
      obtain rfl := Except.ok.inj hrest
      exact .refl _
    | true =>
      rw [round, if_pos rfl] at h
      obtain ⟨rfl, hrest⟩ := Prod.mk.inj h
      have ih := perm_notes_of_round lost false next (Prod.ext rfl hrest)
      rw [notes, List.append_assoc]
      exact ih.append_left noted
  | join parts combine =>
    rw [round] at h
    rcases hround : roundAll lost performs 0 parts with ⟨more, left | left⟩
    · simp [hround] at h
    · have ih := perm_notesOfAll_of_roundAll lost performs 0 parts hround
      have hsame := results_roundAll lost performs 0 parts
      rw [hround] at hsame h
      simp only at h
      cases hdone : allDone? left with
      | none =>
        rw [hdone] at h
        obtain ⟨rfl, hrest⟩ := Prod.mk.inj h
        obtain rfl := Except.ok.inj hrest
        have hresults : (results left).toOption = (results parts).toOption := hsame
        rw [notes, notes, hresults, ← List.append_assoc]
        exact ih.append_right _
      | some found =>
        rw [hdone] at h
        obtain ⟨rfl, hrest⟩ := Prod.mk.inj h
        obtain rfl := Except.ok.inj hrest
        have hresults : some found = (results parts).toOption := by
          have heq : (results left).toOption = (results parts).toOption := hsame
          rwa [results_of_allDone? hdone] at heq
        rw [notesOfAll_eq_nil_of_allDone? hdone, List.append_nil] at ih
        rw [notes, notes, ← hresults, List.append_nil]
        exact ih.append_right _

theorem perm_notesOfAll_of_roundAll (lost : Nat → List ν) (performs : Bool) (undone : Nat)
    (js : List (Job ν ε α)) {rest : List (Job ν ε α)} {made : List ν}
    (h : roundAll lost performs undone js = (made, .ok rest)) :
    (made ++ notesOfAll rest).Perm (notesOfAll js) := by
  match js with
  | [] =>
    obtain ⟨rfl, hrest⟩ := Prod.mk.inj h
    obtain rfl := Except.ok.inj hrest
    exact .refl _
  | j :: js =>
    rw [roundAll] at h
    rcases hround : j.round lost performs with ⟨noted, e | left⟩
    · simp [hround] at h
    · have ih := perm_notes_of_round lost performs j hround
      rw [hround] at h
      simp only at h
      obtain ⟨rfl, hrest⟩ := Prod.mk.inj h
      obtain ⟨others, hothers, rfl⟩ := map_eq_ok_iff.mp hrest
      have ihs := perm_notesOfAll_of_roundAll lost performs _ js (Prod.ext rfl hothers)
      rw [notesOfAll, notesOfAll]
      exact (perm_append_swap noted _ left.notes _).trans (ih.append ihs)

end

/-- A job whose workers all stand before an operation, or are done. -/
inductive Begun : Job ν ε α → Prop
  | done {a : α} : Begun (.done a)
  | operation {notes : List ν} {next : Job ν ε α} : Begun (.operation notes next)
  | join {parts : List (Job ν ε α)} {combine : List α → List ν × α} :
      (∀ j ∈ parts, Begun j) → allDone? parts = none → Begun (.join parts combine)

mutual

theorem begun_of_round (lost : Nat → List ν) (performs : Bool) (j : Job ν ε α) {rest : Job ν ε α}
    (h : (j.round lost performs).2 = .ok rest) : rest.Begun := by
  cases j with
  | done a =>
    obtain rfl := Except.ok.inj h
    exact .done
  | fail e => cases h
  | operation noted next =>
    cases performs with
    | false =>
      obtain rfl := Except.ok.inj h
      exact .operation
    | true =>
      rw [round, if_pos rfl] at h
      exact begun_of_round lost false next h
  | join parts combine =>
    rw [round] at h
    rcases hround : roundAll lost performs 0 parts with ⟨more, e | left⟩
    · simp [hround] at h
    · have ih := begun_of_roundAll lost performs 0 parts (congrArg Prod.snd hround)
      rw [hround] at h
      cases hdone : allDone? left with
      | none =>
        simp only [hdone] at h
        obtain rfl := Except.ok.inj h
        exact .join ih hdone
      | some found =>
        simp only [hdone] at h
        obtain rfl := Except.ok.inj h
        exact .done

theorem begun_of_roundAll (lost : Nat → List ν) (performs : Bool) (undone : Nat)
    (js : List (Job ν ε α)) {rest : List (Job ν ε α)}
    (h : (roundAll lost performs undone js).2 = .ok rest) : ∀ j ∈ rest, j.Begun := by
  match js with
  | [] =>
    obtain rfl := Except.ok.inj h
    simp
  | j :: js =>
    rw [roundAll] at h
    rcases hround : j.round lost performs with ⟨noted, e | left⟩
    · simp [hround] at h
    · have ih := begun_of_round lost performs j (congrArg Prod.snd hround)
      rw [hround] at h
      obtain ⟨others, hothers, rfl⟩ := map_eq_ok_iff.mp h
      have ihs := begun_of_roundAll lost performs _ js hothers
      rw [List.forall_mem_cons]
      exact ⟨ih, ihs⟩

end

mutual

/-- A round in which operations are done leaves one operation less to do after another. -/
theorem length_of_round (lost : Nat → List ν) (performs : Bool) (j : Job ν ε α) {rest : Job ν ε α}
    (h : (j.round lost performs).2 = .ok rest) : rest.length ≤ j.length - performs.toNat := by
  cases j with
  | done a =>
    obtain rfl := Except.ok.inj h
    exact Nat.zero_le _
  | fail e => cases h
  | operation noted next =>
    cases performs with
    | false =>
      obtain rfl := Except.ok.inj h
      exact Nat.le_refl _
    | true =>
      rw [round, if_pos rfl] at h
      exact length_of_round lost false next h
  | join parts combine =>
    rw [round] at h
    rcases hround : roundAll lost performs 0 parts with ⟨more, e | left⟩
    · simp [hround] at h
    · have ih := maxLength_of_roundAll lost performs 0 parts (congrArg Prod.snd hround)
      rw [hround] at h
      cases hdone : allDone? left with
      | none =>
        simp only [hdone] at h
        obtain rfl := Except.ok.inj h
        exact ih
      | some found =>
        simp only [hdone] at h
        obtain rfl := Except.ok.inj h
        exact Nat.zero_le _

theorem maxLength_of_roundAll (lost : Nat → List ν) (performs : Bool) (undone : Nat)
    (js : List (Job ν ε α)) {rest : List (Job ν ε α)}
    (h : (roundAll lost performs undone js).2 = .ok rest) :
    maxLength rest ≤ maxLength js - performs.toNat := by
  match js with
  | [] =>
    obtain rfl := Except.ok.inj h
    exact Nat.zero_le _
  | j :: js =>
    rw [roundAll] at h
    rcases hround : j.round lost performs with ⟨noted, e | left⟩
    · simp [hround] at h
    · have ih := length_of_round lost performs j (congrArg Prod.snd hround)
      rw [hround] at h
      obtain ⟨others, hothers, rfl⟩ := map_eq_ok_iff.mp h
      have ihs := maxLength_of_roundAll lost performs _ js hothers
      rw [maxLength, maxLength]
      omega

end

theorem length_le_maxLength {j : Job ν ε α} {js : List (Job ν ε α)} (h : j ∈ js) :
    j.length ≤ maxLength js := by
  induction js with
  | nil => cases h
  | cons k ks ih =>
    rw [maxLength]
    obtain rfl | hrest := List.mem_cons.mp h
    · omega
    · have hle := ih hrest
      omega

theorem exists_allDone? {js : List (Job ν ε α)} (h : ∀ j ∈ js, ∃ a, j = .done a) :
    ∃ found, allDone? js = some found := by
  induction js with
  | nil => exact ⟨[], rfl⟩
  | cons j js ih =>
    obtain ⟨⟨a, rfl⟩, hrest⟩ := List.forall_mem_cons.mp h
    obtain ⟨found, hfound⟩ := ih hrest
    exact ⟨a :: found, by simp [allDone?, done?, hfound]⟩

/-- A job that has begun and in which no operation is left is done. -/
theorem Begun.exists_done {j : Job ν ε α} (h : j.Begun) (hlength : j.length = 0) :
    ∃ a, j = .done a := by
  induction h with
  | @done a => exact ⟨a, rfl⟩
  | operation => cases hlength
  | @join parts combine hparts hnone ih =>
    have hdone (j : Job ν ε α) (hj : j ∈ parts) : ∃ a, j = .done a := by
      have hle := length_le_maxLength hj
      rw [length] at hlength
      exact ih j hj (by omega)
    obtain ⟨found, hfound⟩ := exists_allDone? hdone
    rw [hnone] at hfound
    cases hfound

theorem perm_notes_of_rounds (lost : Nat → List ν) (n : Nat) {j : Job ν ε α} (hj : j.Begun)
    (hlength : j.length ≤ n) {made : List ν} {a : α} (h : rounds lost n j = (made, .ok a)) :
    made.Perm j.notes := by
  induction n generalizing j made with
  | zero =>
    obtain ⟨b, rfl⟩ := hj.exists_done (Nat.le_zero.mp hlength)
    obtain ⟨rfl, _⟩ := Prod.mk.inj h
    exact .refl _
  | succ n ih =>
    rw [rounds] at h
    rcases hround : j.round lost true with ⟨noted, e | left⟩
    · simp [hround] at h
    · have hperm := perm_notes_of_round lost true j hround
      have hbegun := begun_of_round lost true j (congrArg Prod.snd hround)
      have hleft := length_of_round lost true j (congrArg Prod.snd hround)
      rw [hround] at h
      obtain ⟨rfl, hresult⟩ := Prod.mk.inj h
      rw [Bool.toNat_true] at hleft
      have hrest := ih hbegun (by omega) (Prod.ext rfl hresult)
      exact (hrest.append_left noted).trans hperm

/-- When a job succeeds that is done in rounds, all notes on it have been taken. -/
theorem perm_notes_of_run (lost : Nat → List ν) {j : Job ν ε α} {made : List ν} {a : α}
    (h : j.run lost = (made, .ok a)) : made.Perm j.notes := by
  rw [run] at h
  rcases hround : j.round lost false with ⟨noted, e | begun⟩
  · simp [hround] at h
  · have hperm := perm_notes_of_round lost false j hround
    have hbegun := begun_of_round lost false j (congrArg Prod.snd hround)
    rw [hround] at h
    obtain ⟨rfl, hresult⟩ := Prod.mk.inj h
    have hrest := perm_notes_of_rounds lost _ hbegun (Nat.le_refl _) (Prod.ext rfl hresult)
    exact (hrest.append_left noted).trans hperm

end TypeAtlas.Concurrency.Job
