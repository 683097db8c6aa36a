import TypeAtlas.Proofs.Join.Results

namespace TypeAtlas.Concurrency

namespace Task

variable {ε α : Type}

theorem isSeen_callOff (t : Task ε α) : t.callOff.isSeen = t.isSeen := by
  unfold callOff
  split <;> rfl

theorem isWatched_callOff (t : Task ε α) : t.callOff.isWatched = t.isWatched := by
  unfold callOff
  split <;> rfl

theorem isHushed_callOff (t : Task ε α) (h : t.isHushed = true) : t.callOff.isHushed = true := by
  unfold callOff
  split
  · rfl
  · exact h

theorem isHushed_callOff_of_finished {t : Task ε α} (h : t.isFinished = true) :
    t.callOff.isHushed = true := by
  rw [callOff, if_pos h]

theorem informs_divert (o : Outcome ε α) : Informs (Task.divert · o) where
  outcome t := by
    unfold divert
    split <;> rfl
  news t h := by simp [divert, isFinished, h]
  kept t p h hnews := by simp [divert, isFinished, h, hnews]

theorem isSeen_divert (t : Task ε α) (o : Outcome ε α) : (t.divert o).isSeen = t.isSeen := by
  unfold divert
  split <;> rfl

theorem isWatched_divert (t : Task ε α) (o : Outcome ε α) :
    (t.divert o).isWatched = t.isWatched := by
  unfold divert
  split <;> rfl

theorem isHushed_divert (t : Task ε α) (o : Outcome ε α) :
    (t.divert o).isHushed = t.isHushed := by
  unfold divert
  split <;> rfl

/-- Somebody has looked at how the task ended, or is going to when it ends. -/
def isCovered (t : Task ε α) : Bool :=
  t.isSeen || t.isWatched && !t.isFinished

theorem isCovered_wake (t : Task ε α) (h : t.isCovered = true) : t.wake.isCovered = true := by
  unfold isCovered at h
  cases hseen : t.isSeen <;> simp_all [isCovered, wake]

theorem isCovered_see (t : Task ε α) : t.see.isCovered = true :=
  rfl

theorem isCovered_watch (t : Task ε α) : t.watch.isCovered = true := by
  unfold watch
  split
  · rfl
  · rename_i hopen
    have hopen' : isFinished { t with isWatched := true } = false := Bool.eq_false_iff.mpr hopen
    simp [isCovered, hopen']

end Task

namespace Join

variable {ε α β : Type} {j next : Join ε α β} {heard : List Nat} {left : Nat → Prop}

section Tasks

variable {p : Task ε α → Bool}

/-- Whether there is a task with this number of which this holds. -/
def taskIs (j : Join ε α β) (p : Task ε α → Bool) (i : Nat) : Bool :=
  j.tasks[i]?.any p

/-- Whether somebody has looked at how a task ended. -/
def isSeen (j : Join ε α β) (i : Nat) : Bool :=
  j.taskIs Task.isSeen i

theorem any_modify (tasks : List (Task ε α)) (i k : Nat) (f : Task ε α → Task ε α)
    (p : Task ε α → Bool) :
    (tasks.modify i f)[k]?.any p = tasks[k]?.any fun t => p (if i = k then f t else t) := by
  rw [List.getElem?_modify]
  cases tasks[k]? <;> rfl

theorem any_modify_of_eq {f : Task ε α → Task ε α} (hf : ∀ t, p (f t) = p t)
    (tasks : List (Task ε α)) (i k : Nat) : (tasks.modify i f)[k]?.any p = tasks[k]?.any p := by
  rw [any_modify]
  congr 1
  funext t
  split
  · exact hf t
  · rfl

theorem any_modify_of_imp {f : Task ε α → Task ε α} (hf : ∀ t, p t = true → p (f t) = true)
    {tasks : List (Task ε α)} (i : Nat) {k : Nat} (hk : tasks[k]?.any p = true) :
    (tasks.modify i f)[k]?.any p = true := by
  obtain ⟨t, ht, hp⟩ := (Option.any_eq_true _ _).mp hk
  rw [any_modify, ht, Option.any_some]
  split
  · exact hf t hp
  · exact hp

theorem taskIs_inform_of_imp {f : Task ε α → Task ε α} (hf : ∀ t, p t = true → p (f t) = true)
    (i : Nat) {k : Nat} (hk : j.taskIs p k = true) : (j.inform i f).taskIs p k = true := by
  rw [inform_eq]
  exact any_modify_of_imp hf i hk

theorem taskIs_inform {f : Task ε α → Task ε α} (hf : ∀ t, p (f t) = p t) (j : Join ε α β)
    (i : Nat) : (j.inform i f).taskIs p = j.taskIs p := by
  rw [inform_eq]
  exact funext (any_modify_of_eq hf j.tasks i)

theorem taskIs_release (j : Join ε α β) : j.release.taskIs p = j.taskIs p :=
  apply_release (p := fun j => j.taskIs p) (fun _ _ _ => rfl) j

theorem taskIs_hear (j : Join ε α β) (i k : Nat) :
    (j.hear i).taskIs p k =
      if j.unheard - 1 = 0 then j.taskIs p k else (j.tasks.modify i Task.see)[k]?.any p := by
  rw [hear_eq]
  split
  · rw [taskIs_release]
    rfl
  · split
    · rw [taskIs_release]
      rfl
    · rfl

/-- Of the last task the wait only hears that it has ended. -/
theorem isSeen_hear {i : Nat} (hi : i < j.tasks.length) (k : Nat) :
    (j.hear i).isSeen k = true ↔ j.isSeen k = true ∨ k = i ∧ j.unheard - 1 ≠ 0 := by
  rw [isSeen, taskIs_hear]
  by_cases hlast : j.unheard - 1 = 0
  · simp [hlast, isSeen]
  · rw [if_neg hlast, any_modify, isSeen, taskIs]
    by_cases hk : i = k
    · subst hk
      simp [List.getElem?_eq_getElem hi, Task.see, hlast]
    · simp [hk, Ne.symm hk]

theorem isWatched_hear (j : Join ε α β) (i : Nat) :
    (j.hear i).taskIs Task.isWatched = j.taskIs Task.isWatched := by
  funext k
  rw [taskIs_hear, any_modify_of_eq (f := Task.see) fun _ => rfl]
  exact ite_self _

end Tasks

/-- Something has happened of which the wait has not heard, and the join has not gone on. -/
structure Quietly (j next : Join ε α β) : Prop where
  awaited : next.awaited = j.awaited
  unheard : next.unheard = j.unheard
  isEnded : next.isEnded = j.isEnded
  calledOff : j.isCalledOff = true → next.isCalledOff = true
  calledOff_eq : j.isEnded = true → next.isCalledOff = j.isCalledOff
  outcome : ∀ i o, j.outcome? i = some o → next.outcome? i = some o
  notice : ∀ i, .notice i ∈ next.agenda ↔ .notice i ∈ j.agenda ∨
    j.outcome? i = none ∧ (next.outcome? i).isSome = true ∧ i ∈ j.awaited ∧ j.isEnded = false
  watched : next.taskIs Task.isWatched = j.taskIs Task.isWatched
  seen : ∀ i, j.taskIs Task.isWatched i = false → next.isSeen i = j.isSeen i
  covered : ∀ i, j.taskIs Task.isCovered i = true → next.taskIs Task.isCovered i = true
  hushed : ∀ i, j.taskIs Task.isHushed i = true → next.taskIs Task.isHushed i = true

theorem mem_agenda_cancel {c : Call} (hc : c ≠ .join) : c ∈ j.cancel.agenda ↔ c ∈ j.agenda := by
  unfold cancel
  split
  · split
    · rfl
    · simp [call, hc]
  · rfl
  · rfl

/-- Where no task ends, the wait is told of none. -/
theorem notice_iff_of_outcome (houtcome : next.outcome? = j.outcome?) {i : Nat}
    (hnotice : .notice i ∈ next.agenda ↔ .notice i ∈ j.agenda) :
    .notice i ∈ next.agenda ↔ .notice i ∈ j.agenda ∨
      j.outcome? i = none ∧ (next.outcome? i).isSome = true ∧ i ∈ j.awaited ∧
        j.isEnded = false := by
  rw [hnotice, houtcome]
  refine (or_iff_left ?_).symm
  rintro ⟨hnone, hsome, -⟩
  rw [hnone] at hsome
  cases hsome

/-- A change of a task that nobody looks at. -/
theorem quietly_inform {f : Task ε α → Task ε α} (hf : Task.Informs f)
    (hseen : ∀ t, (f t).isSeen = t.isSeen) (hwatched : ∀ t, (f t).isWatched = t.isWatched)
    (hhushed : ∀ t, t.isHushed = true → (f t).isHushed = true) (i : Nat) :
    Quietly j (j.inform i f) := by
  have hcovered (t : Task ε α) : (f t).isCovered = t.isCovered := by
    rw [Task.isCovered, hseen, hwatched, Task.isFinished, hf.outcome]
    rfl
  exact {
    awaited := by rw [inform_eq]
    unheard := by rw [inform_eq]
    isEnded := isEnded_inform j i f
    calledOff := fun h => by rw [inform_eq]; exact h
    calledOff_eq := fun _ => by rw [inform_eq]
    outcome := fun k o ho => by rw [outcome?_inform hf, ho]
    notice := fun k => notice_iff_of_outcome (outcome?_inform hf j i)
      (mem_agenda_inform.trans (or_iff_left (by simp)))
    watched := taskIs_inform hwatched j i
    seen := fun k _ => congrFun (taskIs_inform hseen j i) k
    covered := fun k hk => by rw [taskIs_inform hcovered, hk]
    hushed := fun k hk => taskIs_inform_of_imp hhushed i hk }

theorem quietly_cancel (j : Join ε α β) : Quietly j j.cancel := by
  have hsame {γ : Type} {p : Join ε α β → γ}
      (hp : ∀ (j : Join ε α β) isCalledOff agenda, p { j with isCalledOff, agenda } = p j) :
      p j.cancel = p j := apply_cancel hp j
  have houtcome := hsame (p := outcome?) fun _ _ _ => rfl
  refine {
    awaited := hsame (p := awaited) fun _ _ _ => rfl
    unheard := hsame (p := Join.unheard) fun _ _ _ => rfl
    isEnded := hsame (p := Join.isEnded) fun _ _ _ => rfl
    calledOff := fun h => ?_
    calledOff_eq := fun hended => ?_
    outcome := fun i o ho => by rw [houtcome, ho]
    notice := fun i => notice_iff_of_outcome houtcome (mem_agenda_cancel (by simp))
    watched := hsame (p := (taskIs · Task.isWatched)) fun _ _ _ => rfl
    seen := fun i _ => hsame (p := (isSeen · i)) fun _ _ _ => rfl
    covered := fun i hi => (hsame (p := (taskIs · Task.isCovered i)) fun _ _ _ => rfl).trans hi
    hushed := fun i hi => (hsame (p := (taskIs · Task.isHushed i)) fun _ _ _ => rfl).trans hi }
  · cases hphase : j.phase <;> simp [cancel, hphase, h]
  · cases hphase : j.phase with
    | waiting => simp [isEnded, hphase] at hended
    | released => simp [isEnded, hphase] at hended
    | ended o => simp [cancel, hphase]

/-- A task that ends is looked at only if it is watched. -/
theorem quietly_wake (h : j.Sound) {i : Nat} {rest : List Call}
    (hperm : (.task i :: rest).Perm j.agenda) :
    Quietly j (wake { j with agenda := rest } i) := by
  obtain ⟨hin, -, -, hrest⟩ := h.rest_spec hperm
  obtain ⟨hnews, hnone⟩ := (h.task i).mp hin
  have hkeeps := keeps_wake j i rest
  generalize hnext : wake { j with agenda := rest } i = next at hkeeps ⊢
  have hself : next.outcome? i = j.news? i := by
    rw [← hnext]
    exact outcome?_wake_self (j := { j with agenda := rest }) hnone
  have hother (k : Nat) (hk : k ≠ i) : next.outcome? k = j.outcome? k := by
    rw [← hnext]
    exact outcome?_wake_of_ne (Ne.symm hk)
  have hagenda (k : Nat) : .notice k ∈ next.agenda ↔
      .notice k ∈ j.agenda ∨ k = i ∧ i ∈ j.awaited ∧ j.isEnded = false := by
    rw [← hnext, mem_agenda_wake, Call.notice.injEq]
    exact or_congr_left (hrest _ (by simp))
  have hlook {p : Task ε α → Bool} (k : Nat) :
      next.taskIs p k = (j.tasks.modify i Task.wake)[k]?.any p := by
    rw [← hnext, taskIs, wake_eq]
  refine {
    awaited := hkeeps.awaited
    unheard := hkeeps.unheard
    isEnded := hnext ▸ isEnded_wake _ i
    calledOff := hkeeps.isCalledOff.trans
    calledOff_eq := fun _ => hkeeps.isCalledOff
    outcome := fun k o ho => ?_
    notice := fun k => ?_
    watched := ?_
    seen := fun k hk => ?_
    covered := fun k hk => ?_
    hushed := fun k hk => ?_ }
  · rw [hother k, ho]
    rintro rfl
    rw [hnone] at ho
    cases ho
  · rw [hagenda]
    by_cases hki : k = i
    · subst hki
      simp [hself, hnone, hnews]
    · cases hk : j.outcome? k <;> simp [hki, hother k hki, hk]
  · funext k
    rw [hlook]
    exact any_modify_of_eq (f := Task.wake) (fun _ => rfl) j.tasks i k
  · rw [isSeen, hlook, any_modify, isSeen, taskIs]
    rw [taskIs] at hk
    cases ht : j.tasks[k]? with
    | none => rfl
    | some t =>
      rw [ht, Option.any_some] at hk
      rw [Option.any_some, Option.any_some]
      split
      · simp [Task.wake, hk]
      · rfl
  · rw [hlook]
    exact any_modify_of_imp Task.isCovered_wake i hk
  · rw [hlook]
    exact any_modify_of_imp (f := Task.wake) (p := Task.isHushed) (fun _ ht => ht) i hk

/-- The join has ended by a verdict, and has looked at all its tasks. -/
structure HasLooked (j : Join ε α β) : Prop where
  ended : j.isEnded = true
  calledOff : j.isCalledOff = false
  covered : ∀ i ∈ j.awaited, j.taskIs Task.isCovered i = true

/-- The join has ended and the task has not. -/
def IsLeft (j : Join ε α β) (i : Nat) : Prop :=
  j.isEnded = true ∧ j.outcome? i = none

/-- The join has not come to a verdict yet, or gave up before. So nobody but the wait has looked at
how the tasks ended, of which it has heard in this order, and some were left when the join gave up:
these the wait does not hear of, and the others are hushed. -/
structure OnlyWaitHasLooked (j : Join ε α β) (heard : List Nat) (left : Nat → Prop) : Prop where
  undecided : j.isEnded = false ∨ j.isCalledOff = true
  once : heard.Nodup
  ended : ∀ i ∈ heard, i ∈ j.awaited ∧ (j.outcome? i).isSome = true ∧ .notice i ∉ j.agenda
  unheard : j.unheard + heard.length = j.awaited.eraseDups.length
  unwatched : ∀ i, j.taskIs Task.isWatched i = false
  seen : ∀ i, j.isSeen i = true ↔ i ∈ heard ∧ (heard.getLast? = some i → j.unheard ≠ 0)
  noticed : ∀ i ∈ j.awaited, (j.outcome? i).isSome = true →
    .notice i ∈ j.agenda ∨ i ∈ heard ∨ left i
  remains : ∀ i, j.IsLeft i → left i
  unnoticed : ∀ i, left i → j.isEnded = true ∧ i ∉ heard ∧ .notice i ∉ j.agenda
  hushed : j.isEnded = true → ∀ i ∈ j.awaited, ¬ left i → j.taskIs Task.isHushed i = true

/-- Of a task that is left the wait has not heard, and is not going to. -/
theorem IsLeft.unnoticed {i : Nat} (h : j.IsLeft i) (hsound : j.Sound)
    (hended : ∀ k ∈ heard, (j.outcome? k).isSome = true) :
    j.isEnded = true ∧ i ∉ heard ∧ .notice i ∉ j.agenda := by
  obtain ⟨hdone, hnone⟩ := h
  refine ⟨hdone, fun hmem => ?_, fun hnotice => ?_⟩
  · have hsome := hended i hmem
    rw [hnone] at hsome
    cases hsome
  · have hsome := (hsound.notice i hnotice).2
    rw [hnone] at hsome
    cases hsome

theorem HasLooked.quietly (h : j.HasLooked) (hquiet : Quietly j next) : next.HasLooked where
  ended := hquiet.isEnded.trans h.ended
  calledOff := (hquiet.calledOff_eq h.ended).trans h.calledOff
  covered i hi := hquiet.covered i (h.covered i (hquiet.awaited ▸ hi))

theorem OnlyWaitHasLooked.quietly (h : j.OnlyWaitHasLooked heard left) (hquiet : Quietly j next) :
    next.OnlyWaitHasLooked heard left where
  undecided := by
    rw [hquiet.isEnded]
    exact h.undecided.imp_right hquiet.calledOff
  once := h.once
  ended i hi := by
    obtain ⟨hawaited, hsome, hnot⟩ := h.ended i hi
    obtain ⟨o, ho⟩ := Option.isSome_iff_exists.mp hsome
    refine ⟨hquiet.awaited ▸ hawaited, by rw [hquiet.outcome i o ho]; rfl, ?_⟩
    rw [hquiet.notice]
    rintro (hnotice | ⟨hnone, -⟩)
    · exact hnot hnotice
    · rw [ho] at hnone
      cases hnone
  unheard := by rw [hquiet.unheard, hquiet.awaited, h.unheard]
  unwatched i := by rw [hquiet.watched, h.unwatched]
  seen i := by
    rw [hquiet.seen i (h.unwatched i), hquiet.unheard]
    exact h.seen i
  noticed i hi hsome := by
    rw [hquiet.awaited] at hi
    cases hold : j.outcome? i with
    | some o =>
      have hnoticed := h.noticed i hi (by rw [hold]; rfl)
      exact hnoticed.imp_left fun hnotice => (hquiet.notice i).mpr (.inl hnotice)
    | none =>
      cases hended : j.isEnded with
      | false => exact .inl ((hquiet.notice i).mpr (.inr ⟨hold, hsome, hi, hended⟩))
      | true => exact .inr (.inr (h.remains i ⟨hended, hold⟩))
  remains i hi := by
    refine h.remains i ⟨hquiet.isEnded ▸ hi.1, ?_⟩
    cases hold : j.outcome? i with
    | none => rfl
    | some o => cases (hquiet.outcome i o hold).symm.trans hi.2
  unnoticed i hi := by
    obtain ⟨hended, hnot, hnotice⟩ := h.unnoticed i hi
    refine ⟨hquiet.isEnded.trans hended, hnot, fun hnew => ?_⟩
    obtain hold | ⟨-, -, -, hopen⟩ := (hquiet.notice i).mp hnew
    · exact hnotice hold
    · cases hended.symm.trans hopen
  hushed hended i hi hnot :=
    hquiet.hushed i (h.hushed (hquiet.isEnded ▸ hended) i (hquiet.awaited ▸ hi) hnot)

/-- There are not more tasks of which the wait hears than it waits for. -/
theorem OnlyWaitHasLooked.unheard_ne_zero (h : j.OnlyWaitHasLooked heard left) {i : Nat}
    (hnotice : .notice i ∈ j.agenda) (hi : i ∈ j.awaited) : j.unheard ≠ 0 := by
  have hnew : i ∉ heard := fun hmem => (h.ended i hmem).2.2 hnotice
  have honce : (i :: heard).Nodup := List.nodup_cons.mpr ⟨hnew, h.once⟩
  have hsub : i :: heard ⊆ j.awaited.eraseDups := by
    intro k hk
    rw [List.mem_eraseDups]
    rcases List.mem_cons.mp hk with rfl | hmem
    · exact hi
    · exact (h.ended k hmem).1
  have hlength := (List.subperm_of_subset honce hsub).length_le
  have htotal := h.unheard
  rw [List.length_cons] at hlength
  omega

theorem mem_agenda_release {c : Call} (hc : c ≠ .join) :
    c ∈ j.release.agenda ↔ c ∈ j.agenda := by
  unfold release
  split
  · split
    · rfl
    · simp [call, hc]
  · rfl

theorem mem_agenda_hear {c : Call} (hc : c ≠ .join) (i : Nat) :
    c ∈ (j.hear i).agenda ↔ c ∈ j.agenda := by
  rw [hear_eq]
  split
  · exact mem_agenda_release hc
  · split
    · exact mem_agenda_release hc
    · rfl

/-- The wait hears of one task more, and looks at it unless it was the last one. -/
theorem OnlyWaitHasLooked.hear (h : j.OnlyWaitHasLooked heard left) (hsound : j.Sound) {i : Nat}
    {rest : List Call} (hperm : (.notice i :: rest).Perm j.agenda) :
    (Join.hear { j with agenda := rest } i).OnlyWaitHasLooked (heard ++ [i]) left := by
  obtain ⟨hnotice, hgone, -, hrest⟩ := hsound.rest_spec hperm
  obtain ⟨hi, hsome⟩ := hsound.notice i hnotice
  have hnew : i ∉ heard := fun hmem => (h.ended i hmem).2.2 hnotice
  have hleft := h.unheard_ne_zero hnotice hi
  generalize hnext : Join.hear { j with agenda := rest } i = next
  have hawaited : next.awaited = j.awaited := by
    rw [← hnext]
    exact IsFixed.hear (p := awaited) (fun _ _ _ _ _ => rfl) _ i
  have houtcome : next.outcome? = j.outcome? := by rw [← hnext]; exact outcome?_hear _ i
  have hunheard : next.unheard = j.unheard - 1 := by rw [← hnext]; exact unheard_hear _ i
  have hended : next.isEnded = j.isEnded := by rw [← hnext]; exact isEnded_hear _ i
  have hagenda (k : Nat) : .notice k ∈ next.agenda ↔ k ≠ i ∧ .notice k ∈ j.agenda := by
    rw [← hnext, mem_agenda_hear (by simp)]
    by_cases hk : k = i
    · simp [hk, hgone]
    · simp [hk, hrest (.notice k) (by simpa using hk)]
  have hseen (k : Nat) : next.isSeen k = true ↔
      j.isSeen k = true ∨ k = i ∧ j.unheard - 1 ≠ 0 := by
    rw [← hnext]
    exact isSeen_hear (j := { j with agenda := rest }) (hsound.inRange i hi) k
  refine {
    undecided := ?_
    once := List.nodup_append_comm.mp (List.nodup_cons.mpr ⟨hnew, h.once⟩)
    ended := fun k hk => ?_
    unheard := ?_
    unwatched := fun k => ?_
    seen := fun k => ?_
    noticed := fun k hk ho => ?_
    remains := fun k hk => h.remains k ⟨hended.symm.trans hk.1, houtcome ▸ hk.2⟩
    unnoticed := fun k hk => ?_
    hushed := fun hdone k hk hnot => ?_ }
  · rw [hended, ← hnext, IsFixed.hear (p := isCalledOff) (fun _ _ _ _ _ => rfl)]
    exact h.undecided
  · rw [hawaited, houtcome, hagenda]
    rcases List.mem_append.mp hk with hold | hnow
    · obtain ⟨hk, hsome, hnot⟩ := h.ended k hold
      exact ⟨hk, hsome, fun hin => hnot hin.2⟩
    · obtain rfl := List.mem_singleton.mp hnow
      exact ⟨hi, hsome, fun hin => hin.1 rfl⟩
  · have htotal := h.unheard
    rw [hunheard, hawaited, List.length_append, List.length_singleton]
    omega
  · rw [← hnext, isWatched_hear]
    exact h.unwatched k
  · rw [hseen, h.seen, hunheard, List.getLast?_concat, List.mem_append, List.mem_singleton]
    by_cases hk : k = i
    · subst hk
      simp [hnew]
    · have hlast : some i ≠ some k := fun hik => hk (Option.some.inj hik).symm
      simp [hk, hlast, hleft]
  · rw [hawaited] at hk
    rw [houtcome] at ho
    by_cases hki : k = i
    · exact .inr (.inl (List.mem_append.mpr (.inr (List.mem_singleton.mpr hki))))
    · obtain hin | hmem | hleft := h.noticed k hk ho
      · exact .inl ((hagenda k).mpr ⟨hki, hin⟩)
      · exact .inr (.inl (List.mem_append_left _ hmem))
      · exact .inr (.inr hleft)
  · obtain ⟨hdone, hnot, hsilent⟩ := h.unnoticed k hk
    refine ⟨hended.trans hdone, fun hmem => ?_, fun hin => hsilent ((hagenda k).mp hin).2⟩
    rcases List.mem_append.mp hmem with hold | hnow
    · exact hnot hold
    · obtain rfl := List.mem_singleton.mp hnow
      exact hsilent hnotice
  · rw [← hnext, taskIs_hear, any_modify_of_eq (f := Task.see) fun _ => rfl]
    rw [hended] at hdone
    rw [hawaited] at hk
    exact (ite_self _).trans (h.hushed hdone k hk hnot)

theorem HasLooked.hear (h : j.HasLooked) (i : Nat) (rest : List Call) :
    (Join.hear { j with agenda := rest } i).HasLooked where
  ended := (isEnded_hear _ i).trans h.ended
  calledOff := by
    rw [IsFixed.hear (p := isCalledOff) fun _ _ _ _ _ => rfl]
    exact h.calledOff
  covered k hk := by
    rw [IsFixed.hear (p := awaited) fun _ _ _ _ _ => rfl] at hk
    have hcovered := h.covered k hk
    rw [taskIs_hear]
    split
    · exact hcovered
    · exact any_modify_of_imp (fun t _ => t.isCovered_see) i hcovered

/-- To tell tasks to give up hushes those that have ended. -/
theorem hushed_foldl_callOff {is : List Nat} {k : Nat}
    (h : k ∈ is ∧ (j.outcome? k).isSome = true ∨ j.taskIs Task.isHushed k = true) :
    (is.foldl callOff j).taskIs Task.isHushed k = true := by
  induction is generalizing j with
  | nil => exact h.resolve_left fun hk => List.not_mem_nil hk.1
  | cons i is ih =>
    refine ih ?_
    rw [callOff, outcome?_inform Task.informs_callOff]
    obtain ⟨hk, hsome⟩ | hhushed := h
    · rcases List.mem_cons.mp hk with rfl | hk
      · right
        rw [outcome?] at hsome
        rw [inform_eq, taskIs, any_modify]
        cases ht : j.tasks[k]? with
        | none =>
          rw [ht] at hsome
          cases hsome
        | some t =>
          rw [ht, Option.bind_some] at hsome
          rw [Option.any_some, if_pos rfl]
          exact Task.isHushed_callOff_of_finished hsome
      · exact .inl ⟨hk, hsome⟩
    · exact .inr (taskIs_inform_of_imp Task.isHushed_callOff i hhushed)

theorem resume_of_calledOff (hopen : j.isEnded = false) (hoff : j.isCalledOff = true) :
    j.resume = { j.awaited.foldl callOff j with phase := .ended .cancelled } := by
  rw [resume, if_neg (by simp [hopen]), if_pos hoff]

/-- What neither the phase of a join nor an order to a task to give up bears on stays as it is when
the join gives up. -/
theorem apply_giveUp {γ : Type} {p : Join ε α β → γ}
    (hphase : ∀ (j : Join ε α β) phase, p { j with phase } = p j)
    (hp : ∀ j i, p (callOff j i) = p j) (hopen : j.isEnded = false)
    (hoff : j.isCalledOff = true) : p j.resume = p j := by
  rw [resume_of_calledOff hopen hoff, hphase]
  exact foldl_callOff hp _ _

/-- A join that gives up looks at none of its tasks. It hushes those that have ended. -/
theorem OnlyWaitHasLooked.giveUp (h : j.OnlyWaitHasLooked heard left) (hsound : j.Sound)
    {rest : List Call} (hperm : (.join :: rest).Perm j.agenda) (hoff : j.isCalledOff = true) :
    (Join.resume { j with agenda := rest }).OnlyWaitHasLooked heard fun i =>
      left i ∨ (Join.resume { j with agenda := rest }).IsLeft i := by
  obtain ⟨hin, -, -, hrest⟩ := hsound.rest_spec hperm
  have hopen := hsound.isEnded_of_mem hin
  have hsound' := hsound.resume hperm
  have hopen' : isEnded { j with agenda := rest } = false := hopen
  have hresume := resume_of_calledOff hopen' hoff
  have hsame {γ : Type} {p : Join ε α β → γ}
      (hphase : ∀ (j : Join ε α β) phase, p { j with phase } = p j)
      (hp : ∀ j i, p (callOff j i) = p j) :
      p (Join.resume { j with agenda := rest }) = p { j with agenda := rest } :=
    apply_giveUp hphase hp hopen' hoff
  generalize Join.resume { j with agenda := rest } = next at hsound' hresume hsame ⊢
  have hnobody (i : Nat) : ¬ left i := fun hleft => by
    cases hopen.symm.trans (h.unnoticed i hleft).1
  have hawaited : next.awaited = j.awaited :=
    hsame (fun _ _ => rfl) fun j i => IsFixed.inform (p := awaited) (fun _ _ _ _ _ => rfl) j i _
  have hcalledOff : next.isCalledOff = j.isCalledOff :=
    hsame (fun _ _ => rfl) fun j i =>
      IsFixed.inform (p := isCalledOff) (fun _ _ _ _ _ => rfl) j i _
  have hunheard : next.unheard = j.unheard :=
    hsame (fun _ _ => rfl) fun j i => (keeps_inform j i _).unheard
  have houtcome : next.outcome? = j.outcome? :=
    hsame (fun _ _ => rfl) (outcome?_inform Task.informs_callOff)
  have hwatched : next.taskIs Task.isWatched = j.taskIs Task.isWatched :=
    hsame (p := (taskIs · Task.isWatched)) (fun _ _ => rfl) (taskIs_inform Task.isWatched_callOff)
  have hseen : next.taskIs Task.isSeen = j.taskIs Task.isSeen :=
    hsame (p := (taskIs · Task.isSeen)) (fun _ _ => rfl) (taskIs_inform Task.isSeen_callOff)
  have hagenda (k : Nat) : .notice k ∈ next.agenda ↔ .notice k ∈ j.agenda := by
    have hnew : (.notice k ∈ next.agenda) = (.notice k ∈ rest) :=
      hsame (p := (.notice k ∈ Join.agenda ·)) (fun _ _ => rfl) fun j i =>
        propext (mem_agenda_inform.trans (or_iff_left (by simp)))
    rw [hnew, hrest _ (by simp)]
  have hended (k : Nat) (hk : k ∈ heard) : (next.outcome? k).isSome = true :=
    (congrArg Option.isSome (congrFun houtcome k)).trans (h.ended k hk).2.1
  exact {
    undecided := .inr (hcalledOff.trans hoff)
    once := h.once
    ended := fun k hk => by
      obtain ⟨hin, -, hnot⟩ := h.ended k hk
      exact ⟨hawaited ▸ hin, hended k hk, fun hnotice => hnot ((hagenda k).mp hnotice)⟩
    unheard := by
      rw [hunheard, hawaited]
      exact h.unheard
    unwatched := fun k => (congrFun hwatched k).trans (h.unwatched k)
    seen := fun k => by
      rw [hunheard, ← h.seen k]
      exact Bool.eq_iff_iff.mp (congrFun hseen k)
    noticed := fun k hk hsome => by
      rw [houtcome] at hsome
      have hnoticed := h.noticed k (hawaited ▸ hk) hsome
      exact hnoticed.imp (hagenda k).mpr (Or.imp_right .inl)
    remains := fun k hk => .inr hk
    unnoticed := fun k hk => (hk.resolve_left (hnobody k)).unnoticed hsound' hended
    hushed := fun hdone k hk hnot => by
      have hsome : (j.outcome? k).isSome = true := by
        rw [← houtcome, Option.isSome_iff_ne_none]
        exact fun hnone => hnot (.inr ⟨hdone, hnone⟩)
      rw [hresume]
      exact hushed_foldl_callOff (.inl ⟨hawaited ▸ hk, hsome⟩) }

theorem covered_foldl_watch {is : List Nat} {tasks : List (Task ε α)} {k : Nat}
    (h : k ∈ is ∨ tasks[k]?.any Task.isCovered = true) (hk : k < tasks.length) :
    (is.foldl (fun tasks i => tasks.modify i Task.watch) tasks)[k]?.any Task.isCovered = true := by
  induction is generalizing tasks with
  | nil => exact h.resolve_left List.not_mem_nil
  | cons i is ih =>
    refine ih ?_ (by rwa [List.length_modify])
    by_cases hik : i = k
    · subst hik
      right
      rw [any_modify, List.getElem?_eq_getElem hk, Option.any_some, if_pos rfl]
      exact Task.isCovered_watch _
    · refine h.imp (fun hmem => ?_) (any_modify_of_imp (fun t _ => t.isCovered_watch) i)
      exact (List.mem_cons.mp hmem).resolve_left (Ne.symm hik)

/-- A join that comes to a verdict has looked at all its tasks. -/
theorem hasLooked_conclude (hsound : j.Sound) (hoff : j.isCalledOff = false) (rest : List Call) :
    (Join.conclude { j with agenda := rest }).HasLooked where
  ended := isEnded_of_phase (phase_conclude _)
  calledOff := (IsFixed.conclude (p := isCalledOff) (fun _ _ _ _ _ => rfl) _).trans hoff
  covered k hk := by
    have hin : k ∈ j.awaited := by
      rwa [IsFixed.conclude (p := awaited) fun _ _ _ _ _ => rfl] at hk
    rw [taskIs, conclude_eq]
    refine covered_foldl_watch (.inl ?_) ?_
    · split
      · rw [foldl_callOff fun j i => (keeps_inform j i _).awaited]
        exact hin
      · exact hin
    · split
      · rw [foldl_callOff (p := fun j => j.tasks.length) fun j i => (keeps_inform j i _).length]
        exact hsound.inRange k hin
      · exact hsound.inRange k hin

end Join

end TypeAtlas.Concurrency
