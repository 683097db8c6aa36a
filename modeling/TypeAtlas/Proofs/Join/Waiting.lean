import TypeAtlas.Proofs.Join.Results

namespace TypeAtlas.Concurrency.Join

variable {ε α β : Type} {j next : Join ε α β}

theorem isOver_congr (hawaited : next.awaited = j.awaited) (houtcome : next.outcome? = j.outcome?) :
    next.IsOver ↔ j.IsOver := by
  unfold IsOver
  rw [hawaited, houtcome]

/-- The join can go on and end, as `o`, without any other task ending before. -/
def CanResume (j : Join ε α (List α)) (o : Outcome ε (List α)) : Prop :=
  ∃ (turns : List Nat) (k : Nat),
    (j.afterAll (turns.map .turn)).outcome? = j.outcome? ∧
    Resumes j.awaited j.cancelsOnFailure (j.afterAll (turns.map .turn))
      ((j.afterAll (turns.map .turn)).takeTurn k) o

theorem exists_canResume {j : Join ε α (List α)} (h : j.Sound) (hcombine : j.combine = Except.ok)
    (hopen : j.isEnded = false) (hoff : j.isCalledOff = false) (hover : j.IsOver) :
    ∃ o, CanResume j o := by
  -- Each turn here is one of which the wait hears, so that it has heard of fewer and fewer no more.
  induction hunheard : j.unheard using Nat.strong_induction_on generalizing j with
  | h n ih =>
    cases hphase : j.phase with
    | ended o =>
      rw [isEnded_of_phase hphase] at hopen
      cases hopen
    | released =>
      obtain ⟨k, rest, -, hturn⟩ := exists_takeTurn_eq (h.join.mpr (.inl hphase))
      have hended : (j.after (.turn k)).phase = .ended (Outcome.verdict j.combine j.outcomes) := by
        have hopen' : isEnded { j with agenda := rest } = false := hopen
        rw [after, hturn, answer, resume_eq_conclude hopen' hoff, phase_conclude]
        rfl
      exact ⟨_, [], k, rfl, resumes_of_ended h hcombine hopen hoff (by simp) hended⟩
    | waiting =>
      obtain ⟨i, hi⟩ := h.exists_notice hphase hoff hover
      obtain ⟨k, rest, -, hturn⟩ := exists_takeTurn_eq hi
      have houtcome : (j.takeTurn k).outcome? = j.outcome? := by
        rw [hturn]
        exact outcome?_hear _ i
      have hfixed {γ : Type} {p : Join ε α (List α) → γ} (hp : IsFixed p) :
          p (j.takeTurn k) = p j := hp.takeTurn j k
      have hawaited := hfixed (p := awaited) fun _ _ _ _ _ => rfl
      have hcancels := hfixed (p := cancelsOnFailure) fun _ _ _ _ _ => rfl
      have hcombine' := hfixed (p := combine) fun _ _ _ _ _ => rfl
      have hoff' := hfixed (p := isCalledOff) fun _ _ _ _ _ => rfl
      have hopen' : (j.takeTurn k).isEnded = false := by
        rw [hturn]
        exact (isEnded_hear _ i).trans hopen
      have hfewer : (j.takeTurn k).unheard < n := by
        have hone : (j.takeTurn k).unheard = j.unheard - 1 := by
          rw [hturn]
          exact unheard_hear _ i
        have hpos := (h.waiting hphase hoff).1
        omega
      obtain ⟨o, turns, m, hsame, hresumes⟩ :=
        ih _ hfewer (h.takeTurn k) (hcombine'.trans hcombine) hopen' (hoff'.trans hoff)
          ((isOver_congr hawaited houtcome).mpr hover) rfl
      rw [hawaited, hcancels] at hresumes
      exact ⟨o, k :: turns, m, hsame.trans houtcome, hresumes⟩

/-- A join that is not told to give up can go on if nobody needs to wait any more, and only then. -/
theorem exists_canResume_iff {j : Join ε α (List α)} (h : j.Sound)
    (hcombine : j.combine = Except.ok) (hopen : j.isEnded = false)
    (hoff : j.isCalledOff = false) : (∃ o, CanResume j o) ↔ j.IsOver := by
  refine ⟨?_, exists_canResume h hcombine hopen hoff⟩
  rintro ⟨o, turns, k, houtcome, hresumes⟩
  have hturns : .cancel ∉ turns.map (JoinEvent.turn (ε := ε) (α := α)) := by simp
  have hfixed {γ : Type} {p : Join ε α (List α) → γ} (hp : IsFixed p) :=
    hp.afterAll j hturns
  have hawaited := hfixed (p := awaited) fun _ _ _ _ _ => rfl
  have hoff' := hfixed (p := isCalledOff) fun _ _ _ _ _ => rfl
  refine (isOver_congr hawaited houtcome).mp ?_
  exact isOver_of_ended (e := .turn k) (h.afterAll _) hresumes.waited (hoff'.trans hoff) (by simp)
    (isEnded_of_phase hresumes.ended)

/-- When a join over tasks of which some may have ended before can go on without any other task ending
before. That a task was cancelled is not enough for that, unless it was the last one. -/
theorem exists_canResume_startWith_iff {initial : List (Option (Outcome ε α))}
    (awaited : List (Fin initial.length)) (cancels : Bool) {events : List (JoinEvent ε α)}
    (hevents : .cancel ∉ events) :
    let j := (startWith initial (awaited.map Fin.val) Except.ok cancels).afterAll events
    j.isEnded = false → ((∃ o, CanResume j o) ↔ j.IsOver) := by
  intro j hopen
  have hsound : j.Sound :=
    (sound_startWith (fun _ => lt_of_mem_map_val) Except.ok cancels).afterAll events
  have hfixed {γ : Type} {p : Join ε α (List α) → γ} (hp : IsFixed p) := hp.afterAll
    (startWith initial (awaited.map Fin.val) Except.ok cancels) hevents
  have hcombine : j.combine = Except.ok := hfixed (p := combine) fun _ _ _ _ _ => rfl
  have hoff : j.isCalledOff = false := hfixed (p := isCalledOff) fun _ _ _ _ _ => rfl
  exact exists_canResume_iff hsound hcombine hopen hoff

/-- A join over two tasks of which the first is told to give up, after all turns are taken. -/
def leftWaiting : Join String Nat (List Nat) :=
  ((start 2 [0, 1] Except.ok true).callOff 0).settle

/-- What happens to it. -/
def firstCalledOff : List (JoinEvent String Nat) :=
  [.callOff 0, .turn 0, .turn 0]

theorem exists_canResume_leftWaiting_iff :
    JoinEvent.cancel ∉ firstCalledOff ∧ leftWaiting.isEnded = false ∧
      ((∃ o, CanResume leftWaiting o) ↔ leftWaiting.IsOver) := by
  have hevents : JoinEvent.cancel ∉ firstCalledOff := by decide
  have hopen : leftWaiting.isEnded = false := rfl
  exact ⟨hevents, hopen, @exists_canResume_startWith_iff _ _ [none, none] [0, 1] true _ hevents hopen⟩

/-- A join that awaits a task that has failed or been cancelled can go on without any other task
ending before. -/
def HeedsFaults (j : Join ε α (List α)) : Prop :=
  (∃ i ∈ j.awaited, j.outcome? i = some .cancelled ∨ ∃ e, j.outcome? i = some (.failure e)) →
    ∃ o, CanResume j o

theorem not_heedsFaults_leftWaiting : ¬ leftWaiting.HeedsFaults := by
  intro hheeds
  have hsound : leftWaiting.Sound :=
    ((sound_start (by decide) Except.ok true).after (.callOff 0)).settle
  have hover := (exists_canResume_iff hsound rfl rfl rfl).mp (hheeds ⟨0, by decide, .inl rfl⟩)
  have hfirst : leftWaiting.outcome? 0 = some .cancelled := rfl
  have hsecond : leftWaiting.outcome? 1 = none := rfl
  obtain hall | ⟨i, hi, e, he⟩ := hover
  · have hended := hall 1 (by decide)
    rw [hsecond] at hended
    cases hended
  · have hmem : i ∈ [0, 1] := hi
    obtain rfl | rfl : i = 0 ∨ i = 1 := by simpa using hmem
    · rw [hfirst] at he
      cases he
    · rw [hsecond] at he
      cases he

end TypeAtlas.Concurrency.Join
