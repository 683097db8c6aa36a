import TypeAtlas.Proofs.Join.Runs

namespace TypeAtlas.Concurrency.Join

variable {ε α β : Type} {j : Join ε α β}

/-- What a join makes of the awaited tasks as they are at a moment: all their values in order, or
what came of the first that has failed or been cancelled by then. -/
inductive Decides (awaited : List Nat) (j : Join ε α β) : Outcome ε (List α) → Prop
  | values {values : List α} :
      List.Forall₂ (fun i v => j.outcome? i = some (.value v)) awaited values →
        Decides awaited j (.value values)
  | failure {front rest : List Nat} {i : Nat} {e : ε} :
      awaited = front ++ i :: rest →
        (∀ k ∈ front, ∀ o, j.outcome? k = some o → ∃ v, o = .value v) →
          j.outcome? i = some (.failure e) → Decides awaited j (.failure e)
  | cancelled {front rest : List Nat} {i : Nat} :
      awaited = front ++ i :: rest →
        (∀ k ∈ front, ∀ o, j.outcome? k = some o → ∃ v, o = .value v) →
          j.outcome? i = some .cancelled → Decides awaited j .cancelled

/-- A join that has not ended goes on. It ends by what it makes of its tasks as they are, none of
which ends by that; those that have not ended are told to give up, if that is asked for, and no other
task is. -/
structure Resumes (awaited : List Nat) (cancels : Bool) (before after : Join ε α (List α))
    (o : Outcome ε (List α)) : Prop where
  waited : before.isEnded = false
  ended : after.phase = .ended o
  decided : before.Decides awaited o
  outcomes : after.outcome? = before.outcome?
  news : ∀ i, after.news? i =
    if cancels = true ∧ i ∈ awaited ∧ before.outcome? i = none then some .cancelled
    else before.news? i

theorem outcomes_eq (h : ∀ i ∈ j.awaited, i < j.tasks.length) :
    j.outcomes = j.awaited.map j.outcome? := by
  rw [outcomes, ← List.filterMap_eq_map]
  refine List.filterMap_congr fun i hi => ?_
  rw [Function.comp_apply, outcome?, List.getElem?_eq_getElem (h i hi)]
  rfl

theorem forall₂_values {is : List Nat} (h : ∀ i ∈ is, ∃ v, j.outcome? i = some (.value v)) :
    List.Forall₂ (fun i v => j.outcome? i = some (.value v)) is
      ((is.map j.outcome?).filterMap (·.bind Outcome.value?)) := by
  induction is with
  | nil => exact .nil
  | cons i is ih =>
    obtain ⟨v, hv⟩ := h i List.mem_cons_self
    rw [List.map_cons, hv]
    exact .cons hv (ih fun k hk => h k (List.mem_cons_of_mem i hk))

/-- Where nobody needs to wait any more, the verdict is what the join makes of its tasks. -/
theorem decides_verdict (h : ∀ i ∈ j.awaited, i < j.tasks.length) (hover : j.IsOver) :
    j.Decides j.awaited (Outcome.verdict Except.ok j.outcomes) := by
  rw [outcomes_eq h, Outcome.verdict]
  cases hfault : (j.awaited.map j.outcome?).findSome?
      (·.bind (Outcome.fault? (β := List α))) with
  | some fault =>
    obtain ⟨os, o, os', hsplit, ho, hnone⟩ := List.findSome?_eq_some_iff.mp hfault
    obtain ⟨front, back, hawaited, rfl, hback⟩ := List.map_eq_append_iff.mp hsplit
    obtain ⟨i, rest, rfl, rfl, -⟩ := List.map_eq_cons_iff.mp hback
    have hfront : ∀ k ∈ front, ∀ o, j.outcome? k = some o → ∃ v, o = .value v := by
      intro k hk o ho
      have hfree := hnone _ (List.mem_map_of_mem hk)
      rw [ho] at hfree
      cases o with
      | value v => exact ⟨v, rfl⟩
      | failure e => cases hfree
      | cancelled => cases hfree
    obtain ⟨p, hp, hpfault⟩ := Option.bind_eq_some_iff.mp ho
    cases p with
    | value v => cases hpfault
    | failure e =>
      obtain rfl := Option.some.inj hpfault
      exact .failure hawaited hfront hp
    | cancelled =>
      obtain rfl := Option.some.inj hpfault
      exact .cancelled hawaited hfront hp
  | none =>
    have hnone := List.findSome?_eq_none_iff.mp hfault
    refine .values (forall₂_values fun i hi => ?_)
    have hfree := hnone _ (List.mem_map_of_mem hi)
    cases ho : j.outcome? i with
    | some o =>
      rw [ho] at hfree
      cases o with
      | value v => exact ⟨v, rfl⟩
      | failure e => cases hfree
      | cancelled => cases hfree
    | none =>
      obtain hall | ⟨k, hk, e, he⟩ := hover
      · have hsome := hall i hi
        rw [ho] at hsome
        cases hsome
      · have hfailed := hnone _ (List.mem_map_of_mem hk)
        rw [he] at hfailed
        cases hfailed

theorem isEnded_release (j : Join ε α β) : j.release.isEnded = j.isEnded := by
  unfold release
  cases hphase : j.phase with
  | waiting => cases j.isCalledOff <;> simp [isEnded, hphase, call]
  | released => rfl
  | ended o => rfl

theorem isEnded_hear (j : Join ε α β) (i : Nat) : (j.hear i).isEnded = j.isEnded := by
  rw [hear_eq]
  split
  · exact isEnded_release _
  · split
    · exact isEnded_release _
    · rfl

theorem isEnded_inform (j : Join ε α β) (i : Nat) (f : Task ε α → Task ε α) :
    (j.inform i f).isEnded = j.isEnded := by
  rw [inform_eq]
  rfl

theorem isEnded_wake (j : Join ε α β) (i : Nat) : (j.wake i).isEnded = j.isEnded := by
  rw [wake_eq]
  rfl

theorem isEnded_of_phase {o : Outcome ε β} (h : j.phase = .ended o) : j.isEnded = true := by
  rw [isEnded, h]

theorem phase_conclude (j : Join ε α β) :
    j.conclude.phase = .ended (Outcome.verdict j.combine j.outcomes) :=
  rfl

/-- As long as a join waits, it ends only by going on. -/
theorem exists_turn_of_ended (hopen : j.isEnded = false) {e : JoinEvent ε α} (he : e ≠ .cancel)
    (hended : (j.after e).isEnded = true) :
    ∃ rest, (.join :: rest).Perm j.agenda ∧ j.after e = Join.resume { j with agenda := rest } := by
  have hsame (h : (j.after e).isEnded = j.isEnded) : False := by
    rw [h, hopen] at hended
    cases hended
  cases e with
  | tell i p => exact (hsame (isEnded_inform j i _)).elim
  | callOff i => exact (hsame (isEnded_inform j i _)).elim
  | cancel => exact absurd rfl he
  | turn k =>
    obtain hnothing | ⟨c, rest, hperm, hturn⟩ := takeTurn_cases j k
    · exact (hsame (congrArg isEnded hnothing)).elim
    · cases c with
      | task i => exact (hsame ((congrArg isEnded hturn).trans (isEnded_wake _ i))).elim
      | notice i => exact (hsame ((congrArg isEnded hturn).trans (isEnded_hear _ i))).elim
      | join => exact ⟨rest, hperm, hturn⟩

/-- A join that is not told to give up ends only when it needs to wait no more. -/
theorem isOver_of_ended (h : j.Sound) (hopen : j.isEnded = false) (hoff : j.isCalledOff = false)
    {e : JoinEvent ε α} (he : e ≠ .cancel) (hended : (j.after e).isEnded = true) : j.IsOver := by
  obtain ⟨rest, hperm, -⟩ := exists_turn_of_ended hopen he hended
  obtain hphase | ⟨-, hcalled⟩ := h.join.mp (h.rest_spec hperm).1
  · exact h.released hphase
  · rw [hoff] at hcalled
    cases hcalled

theorem resume_eq_conclude (hopen : j.isEnded = false) (hoff : j.isCalledOff = false) :
    j.resume = j.conclude := by
  rw [resume, if_neg (by simp [hopen]), if_neg (by simp [hoff])]

theorem resumes_of_ended {j : Join ε α (List α)} (h : j.Sound) (hcombine : j.combine = Except.ok)
    (hopen : j.isEnded = false) (hoff : j.isCalledOff = false) {e : JoinEvent ε α}
    (he : e ≠ .cancel) {o : Outcome ε (List α)} (hended : (j.after e).phase = .ended o) :
    Resumes j.awaited j.cancelsOnFailure j (j.after e) o := by
  have hover := isOver_of_ended h hopen hoff he (isEnded_of_phase hended)
  obtain ⟨rest, -, hresume⟩ := exists_turn_of_ended hopen he (isEnded_of_phase hended)
  have hconclude : j.after e = conclude { j with agenda := rest } :=
    hresume.trans (resume_eq_conclude hopen hoff)
  rw [hconclude] at hended ⊢
  have ho : Outcome.verdict j.combine j.outcomes = o :=
    Phase.ended.inj ((phase_conclude _).symm.trans hended)
  refine { waited := hopen, ended := hended, decided := ?_, outcomes := outcome?_conclude _,
           news := news?_conclude h.inRange }
  rw [← ho, hcombine]
  exact decides_verdict h.inRange hover

/-- What has ended stays so. -/
theorem phase_after_of_ended {o : Outcome ε β} (h : j.phase = .ended o) (e : JoinEvent ε α) :
    (j.after e).phase = .ended o := by
  have hrelease {k : Join ε α β} (hk : k.phase = .ended o) : k.release.phase = .ended o := by
    rw [release, hk]
    exact hk
  cases e with
  | tell i p =>
    rw [after, tell, inform_eq]
    exact h
  | callOff i =>
    rw [after, callOff, inform_eq]
    exact h
  | cancel =>
    rw [after, cancel, h]
    exact h
  | turn k =>
    obtain hnothing | ⟨c, rest, -, hturn⟩ := takeTurn_cases j k
    · rw [after, hnothing, h]
    · rw [after, hturn]
      cases c with
      | task i =>
        rw [answer, wake_eq]
        exact h
      | notice i =>
        rw [answer, hear_eq]
        split
        · exact hrelease h
        · split
          · exact hrelease h
          · exact h
      | join =>
        have hended : isEnded { j with agenda := rest } = true := isEnded_of_phase h
        rw [answer, resume, if_pos hended]
        exact h

theorem phase_afterAll_of_ended {o : Outcome ε β} (h : j.phase = .ended o)
    (events : List (JoinEvent ε α)) : (j.afterAll events).phase = .ended o := by
  induction events generalizing j with
  | nil => exact h
  | cons e events ih => exact ih (phase_after_of_ended h e)

theorem news?_cancel (j : Join ε α β) : j.cancel.news? = j.news? :=
  apply_cancel (fun _ _ _ => rfl) j

/-- A task that is told to give up hears no other news. -/
theorem news?_after_of_cancelled {i : Nat} (h : j.news? i = some .cancelled)
    (e : JoinEvent ε α) : (j.after e).news? i = some .cancelled := by
  have hcallOff (k : Join ε α β) (hk : k.news? i = some .cancelled) (is : List Nat) :
      (is.foldl callOff k).news? i = some .cancelled := by
    rw [news?_foldl_callOff, hk, ite_self]
  cases e with
  | tell m p =>
    by_cases hm : m = i
    · subst hm
      obtain ⟨t, ht, hnews⟩ := Option.bind_eq_some_iff.mp h
      rw [after, tell, news?_inform_self ht, Task.tell, hnews]
      rfl
    · rw [after, tell, news?_inform_of_ne hm, h]
  | callOff m => exact hcallOff j h [m]
  | cancel => rw [after, news?_cancel, h]
  | turn k =>
    obtain hnothing | ⟨c, rest, -, hturn⟩ := takeTurn_cases j k
    · rw [after, hnothing, h]
    · rw [after, hturn]
      cases c with
      | task m =>
        rw [answer, news?_wake]
        exact h
      | notice m =>
        rw [answer, news?_hear]
        exact h
      | join =>
        rw [answer, resume]
        split
        · exact h
        · split
          · exact hcallOff { j with agenda := rest } h _
          · rw [conclude_eq]
            refine (bind_foldl_watch Task.news_watch _ _ _).trans ?_
            split
            · exact hcallOff { j with phase := _, agenda := rest } h _
            · exact h

theorem news?_afterAll_of_cancelled {i : Nat} (h : j.news? i = some .cancelled)
    (events : List (JoinEvent ε α)) : (j.afterAll events).news? i = some .cancelled := by
  induction events generalizing j with
  | nil => exact h
  | cons e events ih => exact ih (news?_after_of_cancelled h e)

/-- At one moment of a run, the join goes on and ends by that. Whom it tells to give up then does not
end otherwise later. -/
def Completes (awaited : List Nat) (cancels : Bool) (begun : Join ε α (List α))
    (events : List (JoinEvent ε α)) (o : Outcome ε (List α)) : Prop :=
  ∃ earlier e later, events = earlier ++ e :: later ∧
    Resumes awaited cancels (begun.afterAll earlier) ((begun.afterAll earlier).after e) o ∧
    ∀ i ∈ awaited, cancels = true → (begun.afterAll earlier).outcome? i = none →
      ∀ p, (begun.afterAll events).outcome? i = some p → p = .cancelled

/-- A join that is never told to give up ends only by going on. -/
theorem completes_of_ended {j : Join ε α (List α)} (h : j.Sound)
    (hcombine : j.combine = Except.ok) (hopen : j.isEnded = false) (hoff : j.isCalledOff = false)
    {events : List (JoinEvent ε α)} (hevents : .cancel ∉ events) {o : Outcome ε (List α)}
    (hended : (j.afterAll events).phase = .ended o) :
    Completes j.awaited j.cancelsOnFailure j events o := by
  induction events generalizing j with
  | nil =>
    have hclosed : j.isEnded = true := isEnded_of_phase hended
    rw [hclosed] at hopen
    cases hopen
  | cons e events ih =>
    rw [List.mem_cons, not_or] at hevents
    have he : e ≠ .cancel := Ne.symm hevents.1
    cases hnext : (j.after e).isEnded with
    | true =>
      obtain ⟨p, hp⟩ : ∃ p, (j.after e).phase = .ended p := by
        cases hphase : (j.after e).phase with
        | ended p => exact ⟨p, rfl⟩
        | waiting => rw [isEnded, hphase] at hnext; cases hnext
        | released => rw [isEnded, hphase] at hnext; cases hnext
      obtain rfl := Phase.ended.inj ((phase_afterAll_of_ended hp events).symm.trans hended)
      have hresumes := resumes_of_ended h hcombine hopen hoff he hp
      refine ⟨[], e, events, rfl, hresumes, fun i hi hcancels hnone q hq => ?_⟩
      have hnews : (j.after e).news? i = some .cancelled := by
        rw [hresumes.news, if_pos ⟨hcancels, hi, hnone⟩]
      have htold := ((h.after e).afterAll events).told i q hq
      exact (Option.some.inj ((news?_afterAll_of_cancelled hnews events).symm.trans htold)).symm
    | false =>
      have hawaited : (j.after e).awaited = j.awaited := by
        exact IsFixed.after (p := awaited) (fun _ _ _ _ _ => rfl) j he
      have hcancels : (j.after e).cancelsOnFailure = j.cancelsOnFailure := by
        exact IsFixed.after (p := cancelsOnFailure) (fun _ _ _ _ _ => rfl) j he
      have hcombine' : (j.after e).combine = Except.ok :=
        (IsFixed.after (p := combine) (fun _ _ _ _ _ => rfl) j he).trans hcombine
      have hoff' : (j.after e).isCalledOff = false :=
        (IsFixed.after (p := isCalledOff) (fun _ _ _ _ _ => rfl) j he).trans hoff
      obtain ⟨earlier, d, later, rfl, hresumes, hlater⟩ :=
        ih (h.after e) hcombine' hnext hoff' hevents.2 hended
      rw [hawaited, hcancels] at hresumes hlater
      exact ⟨e :: earlier, d, later, rfl, hresumes, hlater⟩

/-- A wait that should be over is going to hear of a task. -/
theorem Sound.exists_notice (h : j.Sound) (hwaiting : j.phase = .waiting)
    (hoff : j.isCalledOff = false) (hover : j.IsOver) : ∃ i, .notice i ∈ j.agenda := by
  obtain ⟨hpos, hfailed⟩ := h.waiting hwaiting hoff
  obtain hall | ⟨i, hi, e, he⟩ := hover
  · rw [h.unheard (isEnded_of_waiting hwaiting), Finset.card_pos] at hpos
    obtain ⟨i, hi⟩ := hpos
    obtain ⟨hi, hnone | hnotice⟩ := Finset.mem_filter.mp hi
    · have hsome := hall i (List.mem_toFinset.mp hi)
      rw [Option.isNone_iff_eq_none.mp hnone] at hsome
      cases hsome
    · exact ⟨i, hnotice⟩
  · exact ⟨i, hfailed i e hi he⟩

/-- Where nobody needs to wait any more and everyone has had their turn, the join has ended. -/
theorem Sound.isEnded_of_isOver (h : j.Sound) (hoff : j.isCalledOff = false) (hover : j.IsOver)
    (hagenda : j.agenda = []) : j.isEnded = true := by
  have hidle (c : Call) : c ∉ j.agenda := by
    rw [hagenda]
    exact List.not_mem_nil
  cases hphase : j.phase with
  | waiting =>
    obtain ⟨i, hi⟩ := h.exists_notice hphase hoff hover
    exact (hidle _ hi).elim
  | released => exact (hidle _ (h.join.mpr (.inl hphase))).elim
  | ended o => rw [isEnded, hphase]

/-- The result of a join that is never told to give up, over tasks of which some may have ended
before. Whatever happens in whatever order, it has no other results than those of the moment at which
it goes on; and it does go on when nobody needs to wait any more. -/
theorem completes_startWith {initial : List (Option (Outcome ε α))}
    (awaited : List (Fin initial.length)) (cancels : Bool) {events : List (JoinEvent ε α)}
    (hevents : .cancel ∉ events) :
    let begun := startWith initial (awaited.map Fin.val) Except.ok cancels
    (∀ o, (begun.afterAll events).phase = .ended o →
      awaited = [] ∧ o = .value [] ∨ Completes (awaited.map Fin.val) cancels begun events o) ∧
    ((begun.afterAll events).IsOver → (begun.afterAll events).agenda = [] →
      (begun.afterAll events).isEnded = true) := by
  intro begun
  have hsound : begun.Sound := sound_startWith (fun _ => lt_of_mem_map_val) Except.ok cancels
  refine ⟨fun o hended => ?_, fun hover hagenda => ?_⟩
  · cases awaited with
    | nil =>
      have hphase : begun.phase = .ended (.value []) := rfl
      have hsame := (phase_afterAll_of_ended hphase events).symm.trans hended
      exact .inl ⟨rfl, (Phase.ended.inj hsame).symm⟩
    | cons i is => exact .inr (completes_of_ended hsound rfl rfl rfl hevents hended)
  · refine (hsound.afterAll events).isEnded_of_isOver ?_ hover hagenda
    exact IsFixed.afterAll (p := isCalledOff) (fun _ _ _ _ _ => rfl) begun hevents

/-- The last of three tasks fails, and before the join goes on the second is told to give up. -/
def lateFailure : List (JoinEvent String Nat) :=
  [.tell 2 (.failure "late"), .turn 0, .turn 0, .callOff 1, .turn 1, .turn 0, .turn 1]

theorem completes_lateFailure :
    JoinEvent.cancel ∉ lateFailure ∧
      Completes [0, 1, 2] true (startWith [none, none, none] [0, 1, 2] Except.ok true) lateFailure
        .cancelled := by
  have hevents : JoinEvent.cancel ∉ lateFailure := by decide
  have hresult := (@completes_startWith String Nat [none, none, none] [0, 1, 2] true _ hevents).1
    .cancelled rfl
  exact ⟨hevents, hresult.resolve_left fun hempty => nomatch hempty.1⟩

end TypeAtlas.Concurrency.Join
