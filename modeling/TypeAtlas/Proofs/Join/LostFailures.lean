import TypeAtlas.Proofs.Join.Looks

namespace TypeAtlas.Concurrency

/-- What can happen to a join and its tasks where these need not give up when they are told to. -/
inductive UnrulyEvent (ε α : Type)
  | ordinary (e : JoinEvent ε α)
  /-- A task does not end as it was told to. -/
  | divert (i : Nat) (o : Outcome ε α)
  deriving DecidableEq, Repr

namespace Join

variable {ε α β : Type} {j next begun : Join ε α β} {heard : List Nat} {left : Nat → Prop}

def undergo (j : Join ε α β) : UnrulyEvent ε α → Join ε α β
  | .ordinary e => j.after e
  | .divert i o => j.divert i o

def undergoAll (j : Join ε α β) (events : List (UnrulyEvent ε α)) : Join ε α β :=
  events.foldl undergo j

theorem undergoAll_concat (j : Join ε α β) (events : List (UnrulyEvent ε α))
    (e : UnrulyEvent ε α) : j.undergoAll (events ++ [e]) = (j.undergoAll events).undergo e :=
  List.foldl_concat ..

theorem awaited_undergoAll (j : Join ε α β) (events : List (UnrulyEvent ε α)) :
    (j.undergoAll events).awaited = j.awaited := by
  induction events generalizing j with
  | nil => rfl
  | cons e events ih =>
    refine (ih (j.undergo e)).trans ?_
    cases e with
    | ordinary e => exact awaited_afterAll j [e]
    | divert i o => exact IsFixed.inform (p := awaited) (fun _ _ _ _ _ => rfl) j i _

namespace Sound

theorem undergo (h : j.Sound) (e : UnrulyEvent ε α) : (j.undergo e).Sound := by
  cases e with
  | ordinary e => exact h.after e
  | divert i o => exact h.inform i (Task.informs_divert o)

theorem undergoAll (h : j.Sound) (events : List (UnrulyEvent ε α)) :
    (j.undergoAll events).Sound := by
  induction events generalizing j with
  | nil => exact h
  | cons e events ih => exact ih (h.undergo e)

/-- A join that was told to give up has done so once everyone has had their turn. -/
theorem isEnded_of_isCalledOff (h : j.Sound) (hoff : j.isCalledOff = true)
    (hagenda : j.agenda = []) : j.isEnded = true := by
  have hnot : ¬ (j.phase = .released ∨ j.phase = .waiting ∧ j.isCalledOff = true) := by
    rw [← h.join, hagenda]
    exact List.not_mem_nil
  cases hphase : j.phase with
  | waiting => exact absurd (.inr ⟨hphase, hoff⟩) hnot
  | released => exact absurd (.inl hphase) hnot
  | ended o => exact isEnded_of_phase hphase

end Sound

/-- The task of whose end the wait hears when something happens, if it does. -/
def hears? (j : Join ε α β) : UnrulyEvent ε α → Option Nat
  | .ordinary (.turn k) =>
    match j.agenda[k]? with
    | some (.notice i) => some i
    | _ => none
  | _ => none

/-- The tasks of whose end the wait hears, in order. -/
def hearings (j : Join ε α β) : List (UnrulyEvent ε α) → List Nat
  | [] => []
  | e :: events => (j.hears? e).toList ++ (j.undergo e).hearings events

theorem hearings_concat (j : Join ε α β) (events : List (UnrulyEvent ε α))
    (e : UnrulyEvent ε α) :
    j.hearings (events ++ [e]) = j.hearings events ++ ((j.undergoAll events).hears? e).toList := by
  induction events generalizing j with
  | nil => simp [hearings, undergoAll]
  | cons e' events ih =>
    rw [List.cons_append, hearings, hearings, ih, List.append_assoc]
    rfl

/-- There is a moment at which the join has ended and the task has not. -/
def Outlives (j : Join ε α β) (events : List (UnrulyEvent ε α)) (i : Nat) : Prop :=
  ∃ before, before <+: events ∧ (j.undergoAll before).IsLeft i

theorem outlives_nil_iff {i : Nat} : j.Outlives [] i ↔ j.IsLeft i := by
  simp [Outlives, undergoAll]

theorem outlives_concat_iff {events : List (UnrulyEvent ε α)} {e : UnrulyEvent ε α} {i : Nat} :
    j.Outlives (events ++ [e]) i ↔
      j.Outlives events i ∨ ((j.undergoAll events).undergo e).IsLeft i := by
  simp only [Outlives, List.prefix_concat_iff, or_and_right, exists_or, exists_eq_left,
    undergoAll_concat]
  exact or_comm

/-- Either the join has looked at its tasks itself, or nobody but the wait has. -/
def IsLookedAt (j : Join ε α β) (heard : List Nat) (left : Nat → Prop) : Prop :=
  j.HasLooked ∨ j.OnlyWaitHasLooked heard left

/-- As long as the join does not go on, no task is left that was not left before. -/
theorem IsLookedAt.widen (h : j.IsLookedAt heard left) :
    j.IsLookedAt heard fun i => left i ∨ j.IsLeft i := by
  refine h.imp_right fun hwait => ?_
  have hsame : (fun i => left i ∨ j.IsLeft i) = left :=
    funext fun i => propext (or_iff_left_of_imp (hwait.remains i))
  rwa [hsame]

theorem IsLookedAt.quietly (h : j.IsLookedAt heard left) (hquiet : Quietly j next) :
    next.IsLookedAt heard left :=
  h.imp (·.quietly hquiet) (·.quietly hquiet)

theorem IsLookedAt.takeTurn (h : j.IsLookedAt heard left) (hsound : j.Sound) (k : Nat) :
    (j.takeTurn k).IsLookedAt (heard ++ (j.hears? (.ordinary (.turn k))).toList)
      fun i => left i ∨ (j.takeTurn k).IsLeft i := by
  cases hk : j.agenda[k]? with
  | none => simpa [hears?, hk, takeTurn_of_none hk] using h.widen
  | some c =>
    obtain ⟨rest, hperm, hturn⟩ := takeTurn_of_some hk
    rw [hturn, hears?, hk]
    cases c with
    | task i =>
      rw [Option.toList_none, List.append_nil]
      exact (h.quietly (quietly_wake hsound hperm)).widen
    | notice i =>
      refine IsLookedAt.widen ?_
      exact h.imp (·.hear i rest) (·.hear hsound hperm)
    | join =>
      rw [Option.toList_none, List.append_nil, answer]
      have hopen := hsound.isEnded_of_mem (hsound.rest_spec hperm).1
      obtain hoff | hoff := Bool.eq_false_or_eq_true j.isCalledOff
      · refine .inr (h.elim (fun hlooked => ?_) (·.giveUp hsound hperm hoff))
        cases hlooked.calledOff.symm.trans hoff
      · have hopen' : isEnded { j with agenda := rest } = false := hopen
        have hconclude : Join.resume { j with agenda := rest } =
            Join.conclude { j with agenda := rest } := resume_eq_conclude hopen' hoff
        rw [hconclude]
        exact .inl (hasLooked_conclude hsound hoff rest)

theorem IsLookedAt.undergo (h : j.IsLookedAt heard left) (hsound : j.Sound)
    (e : UnrulyEvent ε α) :
    (j.undergo e).IsLookedAt (heard ++ (j.hears? e).toList)
      fun i => left i ∨ (j.undergo e).IsLeft i := by
  have hquiet (he : j.hears? e = none) (hquiet : Quietly j (j.undergo e)) :
      (j.undergo e).IsLookedAt (heard ++ (j.hears? e).toList)
        fun i => left i ∨ (j.undergo e).IsLeft i := by
    rw [he, Option.toList_none, List.append_nil]
    exact (h.quietly hquiet).widen
  cases e with
  | divert i o =>
    exact hquiet rfl (quietly_inform (Task.informs_divert o) (Task.isSeen_divert · o)
      (Task.isWatched_divert · o) (fun t ht => (t.isHushed_divert o).trans ht) i)
  | ordinary e =>
    cases e with
    | tell i o =>
      exact hquiet rfl (quietly_inform (Task.informs_tell o) (fun _ => rfl) (fun _ => rfl)
        (fun _ ht => ht) i)
    | callOff i =>
      exact hquiet rfl (quietly_inform Task.informs_callOff Task.isSeen_callOff
        Task.isWatched_callOff Task.isHushed_callOff i)
    | cancel => exact hquiet rfl (quietly_cancel j)
    | turn k => exact h.takeTurn hsound k

/-- In the beginning nobody has looked at any task. -/
theorem isLookedAt_startWith (initial : List (Option (Outcome ε α))) (awaited : List Nat)
    (combine : List α → Except ε β) (cancels : Bool) :
    (startWith initial awaited combine cancels).IsLookedAt []
      (startWith initial awaited combine cancels).IsLeft := by
  have hnobody {p : Task ε α → Bool} (hp : ∀ o, p { news := o, outcome := o } = false) (k : Nat) :
      (startWith initial awaited combine cancels).taskIs p k = false := by
    rw [taskIs, startWith, List.getElem?_map]
    cases initial[k]? with
    | none => rfl
    | some o => exact hp o
  cases awaited with
  | nil =>
    exact .inl {
      ended := rfl
      calledOff := rfl
      covered := fun k hk => absurd hk List.not_mem_nil }
  | cons i is =>
    exact .inr {
      undecided := .inl rfl
      once := .nil
      ended := fun k hk => absurd hk List.not_mem_nil
      unheard := rfl
      unwatched := hnobody fun _ => rfl
      seen := fun k => by simp [isSeen, hnobody (p := Task.isSeen) fun _ => rfl]
      noticed := fun k hk hsome => .inl (mem_agenda_startWith.mpr ⟨k, hk, hsome, rfl⟩)
      remains := fun k hk => hk
      unnoticed := fun k hk => absurd hk.1 Bool.false_ne_true
      hushed := fun hended => absurd hended Bool.false_ne_true }

theorem isLookedAt_undergoAll (h : begun.IsLookedAt [] begun.IsLeft) (hsound : begun.Sound)
    (events : List (UnrulyEvent ε α)) :
    (begun.undergoAll events).IsLookedAt (begun.hearings events) (begun.Outlives events) := by
  induction events using List.reverseRecOn with
  | nil =>
    have hleft : begun.Outlives [] = begun.IsLeft := funext fun i => propext outlives_nil_iff
    rw [hleft]
    exact h
  | append_singleton events e ih =>
    have hleft : begun.Outlives (events ++ [e]) = fun i =>
        begun.Outlives events i ∨ ((begun.undergoAll events).undergo e).IsLeft i :=
      funext fun i => propext outlives_concat_iff
    rw [hleft, hearings_concat, undergoAll_concat]
    exact ih.undergo (hsound.undergoAll events) e

/-- All awaited tasks have ended, and everyone has had their turn. -/
structure IsAtRest (j : Join ε α β) : Prop where
  ended : ∀ i ∈ j.awaited, (j.outcome? i).isSome = true
  agenda : j.agenda = []

theorem HasLooked.isSeen (h : j.HasLooked) {i : Nat} (hi : i ∈ j.awaited)
    (hended : (j.outcome? i).isSome = true) : j.isSeen i = true := by
  obtain ⟨t, ht, hcovered⟩ := (Option.any_eq_true _ _).mp (h.covered i hi)
  rw [outcome?, ht, Option.bind_some] at hended
  rw [Join.isSeen, taskIs, ht, Option.any_some]
  simpa [Task.isCovered, Task.isFinished, hended] using hcovered

/-- The wait has heard of all tasks but those that were left. -/
theorem OnlyWaitHasLooked.left_iff (h : j.OnlyWaitHasLooked heard left) (hrest : j.IsAtRest)
    {i : Nat} (hi : i ∈ j.awaited) : left i ↔ i ∉ heard := by
  refine ⟨fun hleft => (h.unnoticed i hleft).2.1, fun hnot => ?_⟩
  obtain hnotice | hheard | hleft := h.noticed i hi (hrest.ended i hi)
  · rw [hrest.agenda] at hnotice
    cases hnotice
  · exact absurd hheard hnot
  · exact hleft

/-- The wait has looked at all tasks but those that were left, and that of which it heard last of
all. -/
theorem OnlyWaitHasLooked.not_isSeen_iff (h : j.OnlyWaitHasLooked heard left)
    (hrest : j.IsAtRest) {i : Nat} (hi : i ∈ j.awaited) :
    j.isSeen i = false ↔ left i ∨ j.unheard = 0 ∧ heard.getLast? = some i := by
  rw [← Bool.not_eq_true, h.seen, h.left_iff hrest hi]
  tauto

/-- Whether the failure of a task is reported as one at which nobody has looked. -/
def isReported (j : Join ε α β) (i : Nat) : Bool :=
  j.taskIs Task.isReported i

/-- Whether a task was told to give up when it had ended. -/
def isHushed (j : Join ε α β) (i : Nat) : Bool :=
  j.taskIs Task.isHushed i

theorem isReported_iff {i : Nat} {e : ε} (he : j.outcome? i = some (.failure e)) :
    j.isReported i = true ↔ j.isSeen i = false ∧ j.isHushed i = false := by
  rw [isReported, isSeen, isHushed, taskIs, taskIs, taskIs]
  rw [outcome?] at he
  cases ht : j.tasks[i]? with
  | none =>
    rw [ht] at he
    cases he
  | some t =>
    rw [ht, Option.bind_some] at he
    simp [Task.isReported, he, Outcome.isFailure]

/-- When all is over, nobody has looked at the failure of an awaited task just if the join was told
to give up before it went on, and either the task ended only after the join, or it is the one of
which the wait heard last, after it had heard of all others. Of these two, the failure of a task
that outlived the join is reported, unless somebody tells the task later to give up; the other task
is hushed by the join. -/
theorem isSeen_and_isReported_startWith_iff {initial : List (Option (Outcome ε α))}
    (awaited : List (Fin initial.length)) (combine : List α → Except ε β) (cancels : Bool)
    (events : List (UnrulyEvent ε α)) :
    let begun := startWith initial (awaited.map Fin.val) combine cancels
    let j := begun.undergoAll events
    j.IsAtRest → ∀ i ∈ awaited, ∀ e, j.outcome? i = some (.failure e) →
      (j.isSeen i = false ↔ j.isCalledOff = true ∧ (begun.Outlives events i ∨
        j.unheard = 0 ∧ (begun.hearings events).getLast? = some i.val)) ∧
      (j.isReported i = true ↔
        j.isCalledOff = true ∧ begun.Outlives events i ∧ j.isHushed i = false) := by
  intro begun j hrest i hi e he
  have hbegun : begun.Sound := sound_startWith (fun _ => lt_of_mem_map_val) combine cancels
  have hsound : j.Sound := hbegun.undergoAll events
  have hin : i.val ∈ j.awaited := by
    have hawaited : j.awaited = awaited.map Fin.val := awaited_undergoAll begun events
    rw [hawaited]
    exact List.mem_map_of_mem hi
  have hlooked : j.IsLookedAt (begun.hearings events) (begun.Outlives events) :=
    isLookedAt_undergoAll (isLookedAt_startWith initial _ combine cancels) hbegun events
  rw [isReported_iff he]
  rcases hlooked with hall | hwait
  · have hseen := hall.isSeen hin (hrest.ended i hin)
    simp [hseen, hall.calledOff]
  · have hoff : j.isCalledOff = true := by
      -- A join that nobody has told to give up does not wait for ever.
      refine hwait.undecided.elim (fun hopen => ?_) id
      refine (Bool.eq_false_or_eq_true _).resolve_right fun hoff => ?_
      have hended := hsound.isEnded_of_isOver hoff (.inl hrest.ended) hrest.agenda
      exact Bool.false_ne_true (hopen.symm.trans hended)
    have hended := hsound.isEnded_of_isCalledOff hoff hrest.agenda
    have hseen := hwait.not_isSeen_iff hrest hin
    rw [hseen, and_iff_right hoff, and_iff_right hoff]
    refine ⟨Iff.rfl, fun ⟨_, hloud⟩ => ⟨?_, hloud⟩, fun ⟨hleft, hloud⟩ => ⟨.inl hleft, hloud⟩⟩
    by_contra hnot
    exact Bool.false_ne_true (hloud.symm.trans (hwait.hushed hended i hin hnot))

/-- A join over one task is told to give up, and tells the task so, which answers with a failure. -/
def failsInAnswer : List (UnrulyEvent String Nat) :=
  [.ordinary .cancel, .ordinary (.turn 0), .divert 0 (.failure "broken"), .ordinary (.turn 0)]

/-- A join over one task, after that. -/
def failureLost : Join String Nat (List Nat) :=
  (startWith [none] [0] Except.ok true).undergoAll failsInAnswer

theorem isSeen_and_isReported_failureLost :
    failureLost.IsAtRest ∧ failureLost.outcome? 0 = some (.failure "broken") ∧
      failureLost.isSeen 0 = false ∧ failureLost.isReported 0 = true := by
  have hrest : failureLost.IsAtRest := ⟨by decide, rfl⟩
  have hfailed : failureLost.outcome? 0 = some (.failure "broken") := rfl
  have hleft : (startWith [none] [0] Except.ok true : Join String Nat (List Nat)).Outlives
      failsInAnswer 0 := ⟨failsInAnswer.take 2, List.take_prefix .., rfl, rfl⟩
  obtain ⟨hseen, hreported⟩ := @isSeen_and_isReported_startWith_iff String Nat (List Nat) [none]
    [0] Except.ok true failsInAnswer hrest 0 (by decide) "broken" hfailed
  exact ⟨hrest, hfailed, hseen.mpr ⟨rfl, .inl hleft⟩, hreported.mpr ⟨rfl, hleft, rfl⟩⟩

/-- The task fails before the join goes on, but the join is told to give up first: nobody looks at
the failure, and yet it is not reported. -/
example :
    let j : Join String Nat (List Nat) := (startWith [none] [0] Except.ok true).afterAll
      [.tell 0 (.failure "broken"), .turn 0, .turn 0, .cancel, .turn 0]
    j.isSeen 0 = false ∧ j.isReported 0 = false :=
  ⟨rfl, rfl⟩

/-- Whatever happens to a join and its tasks, in the end somebody has looked at every failure of an
awaited task. -/
def LosesNothing (begun : Join ε α β) : Prop :=
  ∀ events, (begun.undergoAll events).IsAtRest → ∀ i ∈ begun.awaited, ∀ e,
    (begun.undergoAll events).outcome? i = some (.failure e) →
      (begun.undergoAll events).isSeen i = true

/-- Whatever happens to a join and its tasks, in the end no failure of an awaited task is reported
as one at which nobody has looked. -/
def ReportsNothing (begun : Join ε α β) : Prop :=
  ∀ events, (begun.undergoAll events).IsAtRest → ∀ i ∈ begun.awaited,
    (begun.undergoAll events).isReported i = false

theorem not_losesNothing_and_not_reportsNothing_single :
    ¬ (startWith [none] [0] Except.ok true : Join String Nat (List Nat)).LosesNothing ∧
      ¬ (startWith [none] [0] Except.ok true : Join String Nat (List Nat)).ReportsNothing := by
  have hrest : failureLost.IsAtRest := ⟨by decide, rfl⟩
  constructor
  · intro hnothing
    have hunseen : failureLost.isSeen 0 = false := rfl
    have hseen := hnothing failsInAnswer hrest 0 (by decide) "broken" rfl
    exact Bool.false_ne_true (hunseen.symm.trans hseen)
  · intro hnothing
    have hreported : failureLost.isReported 0 = true := rfl
    have hnot := hnothing failsInAnswer hrest 0 (by decide)
    exact Bool.false_ne_true (hnot.symm.trans hreported)

end Join

end TypeAtlas.Concurrency
