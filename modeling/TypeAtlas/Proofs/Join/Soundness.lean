import Mathlib.Data.Finset.Card
import TypeAtlas.Proofs.Join.Tasks

namespace TypeAtlas.Concurrency.Join

variable {ε α β : Type} {j : Join ε α β}

/-- Nobody needs to wait any more: all awaited tasks have ended, or one of them has failed. -/
def IsOver (j : Join ε α β) : Prop :=
  (∀ i ∈ j.awaited, (j.outcome? i).isSome = true) ∨
    ∃ i ∈ j.awaited, ∃ e, j.outcome? i = some (.failure e)

/-- The awaited tasks of whose end the wait has not heard. -/
def unheardTasks (j : Join ε α β) : Finset Nat :=
  j.awaited.toFinset.filter fun i => (j.outcome? i).isNone = true ∨ .notice i ∈ j.agenda

/-- What is on the agenda is what is still to be done, each thing once, and the join goes on only if
nobody needs to wait any more. -/
structure Orderly (j : Join ε α β) : Prop where
  inRange : ∀ i ∈ j.awaited, i < j.tasks.length
  told : ∀ i o, j.outcome? i = some o → j.news? i = some o
  once : j.agenda.Nodup
  task : ∀ i, .task i ∈ j.agenda ↔ (j.news? i).isSome = true ∧ j.outcome? i = none
  notice : ∀ i, .notice i ∈ j.agenda → i ∈ j.awaited ∧ (j.outcome? i).isSome = true
  unheard : j.isEnded = false → j.unheard = j.unheardTasks.card
  join : .join ∈ j.agenda ↔ j.phase = .released ∨ j.phase = .waiting ∧ j.isCalledOff = true
  released : j.phase = .released → j.IsOver

/-- Moreover, the join waits no longer than until it has heard of a failure, or of all tasks. -/
structure Sound (j : Join ε α β) : Prop extends Orderly j where
  waiting : j.phase = .waiting → j.isCalledOff = false → 0 < j.unheard ∧
    ∀ i e, i ∈ j.awaited → j.outcome? i = some (.failure e) → .notice i ∈ j.agenda

theorem nodup_append_singleton {agenda : List Call} {c : Call} (h : agenda.Nodup)
    (hc : c ∉ agenda) : (agenda ++ [c]).Nodup :=
  List.nodup_append_comm.mp (List.nodup_cons.mpr ⟨hc, h⟩)

theorem nodup_append_ite {agenda : List Call} {c : Call} {p : Prop} [Decidable p]
    (h : agenda.Nodup) (hc : p → c ∉ agenda) : (agenda ++ if p then [c] else []).Nodup := by
  split
  · rename_i hp
    exact nodup_append_singleton h (hc hp)
  · rwa [List.append_nil]

/-- The wait is over if nobody needs to wait any more. -/
theorem Orderly.release (h : j.Orderly) (hover : j.phase = .waiting → j.IsOver) :
    j.release.Sound := by
  unfold Join.release
  cases hphase : j.phase with
  | waiting =>
    have hnot : j.isCalledOff = false → .join ∉ j.agenda := by
      intro hoff hjoin
      simp [h.join, hphase, hoff] at hjoin
    cases hoff : j.isCalledOff with
    | true =>
      exact { h with waiting := fun _ hfalse => by simp [hoff] at hfalse }
    | false =>
      have hheard : unheardTasks { j with phase := .released, agenda := j.agenda ++ [.join] } =
          j.unheardTasks := Finset.filter_congr fun i _ => by simp [outcome?]
      refine {
        inRange := h.inRange
        told := h.told
        once := ?_
        task := fun i => ?_
        notice := fun i hi => ?_
        unheard := fun _ => ?_
        join := ?_
        released := fun _ => hover hphase
        waiting := fun hwaiting => ?_ }
      · exact nodup_append_singleton h.once (hnot hoff)
      · have hin : .task i ∈ j.agenda ++ [.join] ↔ .task i ∈ j.agenda := by simp
        exact hin.trans (h.task i)
      · exact h.notice i (by simpa [call] using hi)
      · exact (h.unheard (by simp [isEnded, hphase])).trans (congrArg Finset.card hheard.symm)
      · simp [call]
      · cases hwaiting
  | released => exact { h with waiting := fun hwaiting => by simp [hphase] at hwaiting }
  | ended o => exact { h with waiting := fun hwaiting => by simp [hphase] at hwaiting }

/-- Only tasks and the agenda have changed. -/
structure Keeps (j next : Join ε α β) : Prop where
  awaited : next.awaited = j.awaited
  length : next.tasks.length = j.tasks.length
  phase : next.phase = j.phase
  isCalledOff : next.isCalledOff = j.isCalledOff
  unheard : next.unheard = j.unheard

theorem keeps_inform (j : Join ε α β) (i : Nat) (f : Task ε α → Task ε α) :
    Keeps j (j.inform i f) := by
  rw [inform_eq]
  exact ⟨rfl, List.length_modify .., rfl, rfl, rfl⟩

theorem keeps_wake (j : Join ε α β) (i : Nat) (rest : List Call) :
    Keeps j (wake { j with agenda := rest } i) := by
  rw [wake_eq]
  exact ⟨rfl, List.length_modify .., rfl, rfl, rfl⟩

namespace Sound

variable {next : Join ε α β} {i : Nat} {c : Call} {rest : List Call}

/-- While tasks get news and end, the wait is told of every end, once. -/
theorem keep (h : j.Sound) (hkeeps : Keeps j next)
    (hgrown : ∀ k p, j.outcome? k = some p → next.outcome? k = some p)
    (htold : ∀ k p, next.outcome? k = some p → next.news? k = some p)
    (honce : next.agenda.Nodup)
    (htask : ∀ k, .task k ∈ next.agenda ↔
      (next.news? k).isSome = true ∧ next.outcome? k = none)
    (hnotice : ∀ k, .notice k ∈ next.agenda ↔ .notice k ∈ j.agenda ∨
      (j.outcome? k = none ∧ (next.outcome? k).isSome = true ∧ k ∈ j.awaited ∧
        j.isEnded = false))
    (hjoin : .join ∈ next.agenda ↔ .join ∈ j.agenda) : next.Sound := by
  have hended : next.isEnded = j.isEnded := by rw [isEnded, isEnded, hkeeps.phase]
  have hover (hover : j.IsOver) : next.IsOver := by
    unfold IsOver
    rw [hkeeps.awaited]
    obtain hall | ⟨k, hk, e, he⟩ := hover
    · refine .inl fun k hk => ?_
      obtain ⟨p, hp⟩ := Option.isSome_iff_exists.mp (hall k hk)
      rw [hgrown k p hp]
      rfl
    · exact .inr ⟨k, hk, e, hgrown k _ he⟩
  have hheard (hopen : j.isEnded = false) : next.unheardTasks = j.unheardTasks := by
    unfold unheardTasks
    rw [hkeeps.awaited]
    refine Finset.filter_congr fun k hk => ?_
    rw [hnotice]
    cases hk' : j.outcome? k with
    | some p => simp [hgrown k p hk']
    | none => cases hnext : next.outcome? k <;> simp [List.mem_toFinset.mp hk, hopen]
  exact {
    inRange := fun k hk => by
      rw [hkeeps.length]
      exact h.inRange k (hkeeps.awaited ▸ hk)
    told := htold
    once := honce
    task := htask
    notice := fun k hk => by
      rw [hkeeps.awaited]
      obtain hold | ⟨-, hsome, hawaited, -⟩ := (hnotice k).mp hk
      · obtain ⟨hawaited, hsome⟩ := h.notice k hold
        obtain ⟨p, hp⟩ := Option.isSome_iff_exists.mp hsome
        exact ⟨hawaited, by rw [hgrown k p hp]; rfl⟩
      · exact ⟨hawaited, hsome⟩
    unheard := fun hopen => by
      rw [hended] at hopen
      rw [hkeeps.unheard, hheard hopen, h.unheard hopen]
    join := by rw [hjoin, hkeeps.phase, hkeeps.isCalledOff, h.join]
    released := fun hphase => hover (h.released (hkeeps.phase ▸ hphase))
    waiting := fun hphase hoff => by
      rw [hkeeps.phase] at hphase
      rw [hkeeps.isCalledOff] at hoff
      obtain ⟨hpos, hfailed⟩ := h.waiting hphase hoff
      rw [hkeeps.unheard, hkeeps.awaited]
      refine ⟨hpos, fun k e hk he => (hnotice k).mpr ?_⟩
      cases hk' : j.outcome? k with
      | some p =>
        rw [hgrown k p hk'] at he
        exact .inl (hfailed k e hk (hk'.trans he))
      | none => exact .inr ⟨rfl, by simp [he], hk, by simp [isEnded, hphase]⟩ }

/-- To look at tasks changes nothing. -/
theorem look (h : j.Sound) {tasks : List (Task ε α)} (hlength : tasks.length = j.tasks.length)
    (houtcome : ∀ k, tasks[k]?.bind Task.outcome = j.outcome? k)
    (hnews : ∀ k, tasks[k]?.bind Task.news = j.news? k) : Sound { j with tasks } := by
  generalize hnext : { j with tasks } = next
  have houtcome' : next.outcome? = j.outcome? := by rw [← hnext]; exact funext houtcome
  have hnews' : next.news? = j.news? := by rw [← hnext]; exact funext hnews
  have hagenda : next.agenda = j.agenda := by rw [← hnext]
  refine h.keep ?_ ?_ ?_ ?_ ?_ ?_ ?_
  · subst hnext
    exact ⟨rfl, hlength, rfl, rfl, rfl⟩
  · simp [houtcome']
  · rw [houtcome', hnews']
    exact h.told
  · rw [hagenda]
    exact h.once
  · rw [houtcome', hnews', hagenda]
    exact h.task
  · intro k
    rw [houtcome', hagenda]
    refine ⟨.inl, ?_⟩
    rintro (hin | ⟨hnone, hsome, -⟩)
    · exact hin
    · simp [hnone] at hsome
  · rw [hagenda]

theorem inform (h : j.Sound) (i : Nat) {f : Task ε α → Task ε α} (hf : Task.Informs f) :
    (j.inform i f).Sound := by
  cases ht : j.tasks[i]? with
  | none => rwa [Join.inform, ht]
  | some t =>
    have hout : j.outcome? i = t.outcome := by rw [outcome?, ht, Option.bind_some]
    have hold : j.news? i = t.news := by rw [news?, ht, Option.bind_some]
    have hself := news?_inform_self ht f
    have hidle : j.tasks[i]?.any Task.isIdle = true ↔ j.news? i = none := by
      rw [hold, ht, Option.any_some, Task.isIdle, Option.isNone_iff_eq_none]
    have hagenda (d : Call) (hd : d ≠ .task i) : d ∈ (j.inform i f).agenda ↔ d ∈ j.agenda := by
      rw [mem_agenda_inform, or_iff_left fun hnew => hd hnew.1]
    refine h.keep (keeps_inform j i f) (fun k p hp => ?_) (fun k p hp => ?_) ?_ (fun k => ?_)
      (fun k => ?_) ?_
    · rw [outcome?_inform hf, hp]
    · rw [outcome?_inform hf] at hp
      have hnews := h.told k p hp
      by_cases hk : i = k
      · subst hk
        rw [hself]
        exact hf.kept t p (hout ▸ hp) (hold ▸ hnews)
      · rw [news?_inform_of_ne hk, hnews]
    · rw [inform_eq]
      refine nodup_append_ite h.once fun hnew => ?_
      rw [h.task, hidle.mp hnew]
      simp
    · by_cases hk : i = k
      · subst hk
        rw [mem_agenda_inform, hidle, h.task, outcome?_inform hf, hself, hout]
        cases hended : t.outcome with
        | none => cases hnews : j.news? i <;> simp [hf.news t hended]
        | some o => simp [h.told i o (hout.trans hended)]
      · rw [outcome?_inform hf, news?_inform_of_ne hk, hagenda _ (by simpa using Ne.symm hk), h.task]
    · rw [outcome?_inform hf, hagenda _ (by simp)]
      refine ⟨.inl, ?_⟩
      rintro (hin | ⟨hnone, hsome, -⟩)
      · exact hin
      · simp [hnone] at hsome
    · rw [hagenda _ (by simp)]

/-- What is on the agenda beside what is taken from it. -/
theorem rest_spec (h : j.Sound) (hperm : (c :: rest).Perm j.agenda) :
    c ∈ j.agenda ∧ c ∉ rest ∧ rest.Nodup ∧ ∀ d, d ≠ c → (d ∈ rest ↔ d ∈ j.agenda) := by
  obtain ⟨hnot, honce⟩ := List.nodup_cons.mp (hperm.nodup_iff.mpr h.once)
  refine ⟨hperm.mem_iff.mp List.mem_cons_self, hnot, honce, fun d hd => ?_⟩
  rw [← hperm.mem_iff, List.mem_cons, or_iff_right hd]

/-- A task that has its turn ends with its news. -/
theorem wake (h : j.Sound) (hperm : (.task i :: rest).Perm j.agenda) :
    (Join.wake { j with agenda := rest } i).Sound := by
  obtain ⟨hin, hnot, honce, hrest⟩ := h.rest_spec hperm
  obtain ⟨hsome, hnone⟩ := (h.task i).mp hin
  obtain ⟨o, ho⟩ := Option.isSome_iff_exists.mp hsome
  generalize hnext : Join.wake { j with agenda := rest } i = next
  have hnews : next.news? = j.news? := by rw [← hnext]; exact news?_wake _ i
  have hself : next.outcome? i = some o := by
    rw [← hnext]
    exact (outcome?_wake_self (j := { j with agenda := rest }) hnone).trans ho
  have hother (k : Nat) (hk : k ≠ i) : next.outcome? k = j.outcome? k := by
    rw [← hnext]
    exact outcome?_wake_of_ne (Ne.symm hk)
  have hagenda (d : Call) : d ∈ next.agenda ↔
      d ∈ rest ∨ d = .notice i ∧ i ∈ j.awaited ∧ j.isEnded = false := by
    rw [← hnext]
    exact mem_agenda_wake
  have hquiet : .notice i ∉ rest := by
    rw [hrest _ (by simp)]
    intro hnotice
    have hended := (h.notice i hnotice).2
    rw [hnone] at hended
    cases hended
  refine h.keep (hnext ▸ keeps_wake j i rest) (fun k p hp => ?_) (fun k p hp => ?_) ?_
    (fun k => ?_) (fun k => ?_) ?_
  · rw [hother k, hp]
    rintro rfl
    rw [hnone] at hp
    cases hp
  · rw [hnews]
    by_cases hki : k = i
    · subst hki
      rwa [ho, ← hself]
    · rw [hother k hki] at hp
      exact h.told k p hp
  · rw [← hnext, wake_eq]
    exact nodup_append_ite honce fun _ => hquiet
  · by_cases hki : k = i
    · subst hki
      simp [hself, hagenda, hnot]
    · rw [hagenda, hnews, hother k hki, hrest _ (by simpa using hki), h.task]
      simp
  · rw [hagenda, hrest _ (by simp)]
    by_cases hki : k = i
    · subst hki
      simp [hself, hnone]
    · cases hk : j.outcome? k <;> simp [hki, hother k hki, hk]
  · rw [hagenda, hrest _ (by simp)]
    simp

/-- The wait has heard of one task more. -/
theorem heard (h : j.Sound) (hperm : (.notice i :: rest).Perm j.agenda) :
    Orderly { j with agenda := rest, unheard := j.unheard - 1 } := by
  obtain ⟨hin, hnot, honce, hrest⟩ := h.rest_spec hperm
  obtain ⟨hawaited, hended⟩ := h.notice i hin
  have hmem : i ∈ j.unheardTasks :=
    Finset.mem_filter.mpr ⟨List.mem_toFinset.mpr hawaited, .inr hin⟩
  have hheard : unheardTasks { j with agenda := rest, unheard := j.unheard - 1 } =
      j.unheardTasks.erase i := by
    ext k
    rw [Finset.mem_erase, unheardTasks, unheardTasks, Finset.mem_filter, Finset.mem_filter]
    by_cases hki : k = i
    · subst hki
      obtain ⟨p, hp⟩ := Option.isSome_iff_exists.mp hended
      have hp' : outcome? { j with agenda := rest, unheard := j.unheard - 1 } k = some p := hp
      simp [hp', hnot]
    · rw [hrest (.notice k) (by simpa using hki)]
      exact (and_iff_right hki).symm
  exact {
    inRange := h.inRange
    told := h.told
    once := honce
    task := fun k => (hrest _ (by simp)).trans (h.task k)
    notice := fun k hk => h.notice k (hperm.mem_iff.mp (List.mem_cons_of_mem _ hk))
    unheard := fun hended => by
      rw [hheard, Finset.card_erase_of_mem hmem, ← h.unheard hended]
    join := (hrest _ (by simp)).trans h.join
    released := h.released }

theorem hear (h : j.Sound) (hperm : (.notice i :: rest).Perm j.agenda) :
    (Join.hear { j with agenda := rest } i).Sound := by
  obtain ⟨hin, -, -, hrest⟩ := h.rest_spec hperm
  have hawaited := (h.notice i hin).1
  have houtcome (k : Nat) : (j.tasks.modify i Task.see)[k]?.bind Task.outcome = j.outcome? k :=
    bind_modify_of_eq (f := Task.see) (fun _ => rfl) j.tasks i k
  have hseen : Sound { j with tasks := j.tasks.modify i Task.see } :=
    h.look (List.length_modify ..) houtcome
      (bind_modify_of_eq (f := Task.see) (fun _ => rfl) j.tasks i)
  rw [hear_eq]
  split
  · -- Of the last one nobody asks how it ended, but then all have.
    rename_i hlast
    have hheard := h.heard hperm
    refine hheard.release fun hphase => .inl fun k hk => ?_
    have hempty := hheard.unheard (isEnded_of_waiting hphase)
    rw [hlast, eq_comm, Finset.card_eq_zero, unheardTasks, Finset.filter_eq_empty_iff] at hempty
    have hk' := hempty (List.mem_toFinset.mpr hk)
    rw [not_or, Option.isNone_iff_eq_none] at hk'
    exact Option.isSome_iff_ne_none.mpr hk'.1
  · rename_i hmore
    have hheard := hseen.heard hperm
    split
    · rename_i hfailed
      obtain ⟨o, ho, hfailure⟩ := (Option.any_eq_true _ _).mp hfailed
      cases o with
      | failure e => exact hheard.release fun _ => .inr ⟨i, hawaited, e, (houtcome i).trans ho⟩
      | value _ => cases hfailure
      | cancelled => cases hfailure
    · -- The notice that is gone was not of a failure, so that those of failures are still there.
      rename_i hfine
      refine { hheard with waiting := fun hphase hoff => ⟨Nat.pos_of_ne_zero hmore, ?_⟩ }
      intro k e hk he
      have he' : j.outcome? k = some (.failure e) := (houtcome k).symm.trans he
      refine (hrest _ ?_).mpr ((h.waiting hphase hoff).2 k e hk he')
      intro heq
      obtain rfl := Call.notice.inj heq
      have hfine' : ¬ (j.outcome? k).any Outcome.isFailure = true := hfine
      rw [he'] at hfine'
      exact hfine' rfl

theorem foldl_callOff (h : j.Sound) (is : List Nat) : (is.foldl Join.callOff j).Sound := by
  induction is generalizing j with
  | nil => exact h
  | cons i is ih => exact ih (h.inform i Task.informs_callOff)

/-- A join that has ended has no turn any more. -/
theorem ended (h : j.Sound) (hperm : (.join :: rest).Perm j.agenda) (o : Outcome ε β) :
    Sound { j with agenda := rest, phase := .ended o } := by
  obtain ⟨-, hnot, honce, hrest⟩ := h.rest_spec hperm
  exact {
    inRange := h.inRange
    told := h.told
    once := honce
    task := fun k => (hrest _ (by simp)).trans (h.task k)
    notice := fun k hk => h.notice k (hperm.mem_iff.mp (List.mem_cons_of_mem _ hk))
    unheard := fun hended => by cases hended
    join := by simp [hnot]
    released := fun hphase => by cases hphase
    waiting := fun hphase => by cases hphase }

theorem conclude (h : j.Sound) (hperm : (.join :: rest).Perm j.agenda) :
    (Join.conclude { j with agenda := rest }).Sound := by
  have hended := h.ended hperm (Outcome.verdict j.combine j.outcomes)
  rw [conclude_eq]
  refine Sound.look ?_ (length_foldl_watch _ _) (bind_foldl_watch Task.outcome_watch _ _)
    (bind_foldl_watch Task.news_watch _ _)
  split
  · exact hended.foldl_callOff _
  · exact hended

/-- A join that is to go on has not ended. -/
theorem isEnded_of_mem (h : j.Sound) (hin : .join ∈ j.agenda) : j.isEnded = false := by
  obtain hphase | ⟨hphase, -⟩ := h.join.mp hin
  · rw [isEnded, hphase]
  · rw [isEnded, hphase]

theorem resume (h : j.Sound) (hperm : (.join :: rest).Perm j.agenda) :
    (Join.resume { j with agenda := rest }).Sound := by
  unfold Join.resume
  split
  · rename_i hended
    have hopen : isEnded { j with agenda := rest } = false :=
      h.isEnded_of_mem (h.rest_spec hperm).1
    rw [hopen] at hended
    cases hended
  · split
    · rw [← foldl_callOff_phase]
      exact (h.ended hperm _).foldl_callOff _
    · exact h.conclude hperm

theorem cancel (h : j.Sound) : j.cancel.Sound := by
  cases hphase : j.phase with
  | waiting =>
    cases hoff : j.isCalledOff with
    | true =>
      have hcancel : j.cancel = j := by simp [Join.cancel, hphase, hoff]
      rwa [hcancel]
    | false =>
      have hcancel : j.cancel = { j with isCalledOff := true, agenda := j.agenda ++ [.join] } := by
        simp [Join.cancel, hphase, hoff, call]
      have hnot : .join ∉ j.agenda := by
        rw [h.join, hphase, hoff]
        simp
      have hagenda (d : Call) (hd : d ≠ .join) : d ∈ j.agenda ++ [.join] ↔ d ∈ j.agenda := by
        simp [hd]
      have hheard : unheardTasks { j with isCalledOff := true, agenda := j.agenda ++ [.join] } =
          j.unheardTasks := Finset.filter_congr fun i _ => or_congr_right (hagenda _ (by simp))
      rw [hcancel]
      exact {
        inRange := h.inRange
        told := h.told
        once := nodup_append_singleton h.once hnot
        task := fun i => (hagenda _ (by simp)).trans (h.task i)
        notice := fun i hi => h.notice i ((hagenda _ (by simp)).mp hi)
        unheard := fun hopen => (h.unheard hopen).trans (congrArg Finset.card hheard.symm)
        join := by simp [hphase]
        released := h.released
        waiting := fun _ hfalse => by cases hfalse }
  | released =>
    have hcancel : j.cancel = { j with isCalledOff := true } := by simp [Join.cancel, hphase]
    rw [hcancel]
    exact { h with
      join := by simp [h.join, hphase]
      waiting := fun _ hfalse => by cases hfalse }
  | ended o =>
    have hcancel : j.cancel = j := by simp [Join.cancel, hphase]
    rwa [hcancel]

end Sound

end TypeAtlas.Concurrency.Join
