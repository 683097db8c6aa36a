import Mathlib.Data.List.Perm.Basic
import TypeAtlas.Proofs.Join.Soundness

namespace TypeAtlas.Concurrency

/-- What can happen to a join and its tasks. -/
inductive JoinEvent (ε α : Type)
  /-- The work of a task has come to its end, or somebody brings it other news. -/
  | tell (i : Nat) (o : Outcome ε α)
  /-- Somebody else than the join tells a task to give up. -/
  | callOff (i : Nat)
  /-- Somebody tells the join to give up. -/
  | cancel
  /-- One of those on the agenda has its turn, not always the first. -/
  | turn (k : Nat)
  deriving DecidableEq, Repr

namespace Join

variable {ε α β : Type} {j : Join ε α β}

/-- A join over tasks of which some have ended before; `initial` says how. Its wait is going to hear
of these like of any other. -/
def startWith (initial : List (Option (Outcome ε α))) (awaited : List Nat)
    (combine : List α → Except ε β) (cancelsOnFailure : Bool) : Join ε α β :=
  { start initial.length awaited combine cancelsOnFailure with
    tasks := initial.map fun o => { news := o, outcome := o }
    agenda := (awaited.eraseDups.filter fun i => initial[i]?.any Option.isSome).map .notice }

theorem startWith_replicate (n : Nat) (awaited : List Nat) (combine : List α → Except ε β)
    (cancelsOnFailure : Bool) :
    startWith (List.replicate n none) awaited combine cancelsOnFailure =
      start n awaited combine cancelsOnFailure := by
  have hnone (i : Nat) :
      (List.replicate n (none : Option (Outcome ε α)))[i]?.any Option.isSome = false := by
    rw [List.getElem?_replicate]
    split <;> rfl
  simp [startWith, start, hnone]

/-- Someone has their turn. -/
def answer (j : Join ε α β) : Call → Join ε α β
  | .task i => j.wake i
  | .notice i => j.hear i
  | .join => j.resume

/-- The turn number `k` on the agenda is taken, if there is one. -/
def takeTurn (j : Join ε α β) (k : Nat) : Join ε α β :=
  match j.agenda[k]? with
  | none => j
  | some c => { j with agenda := j.agenda.eraseIdx k }.answer c

def after (j : Join ε α β) : JoinEvent ε α → Join ε α β
  | .tell i o => j.tell i o
  | .callOff i => j.callOff i
  | .cancel => j.cancel
  | .turn k => j.takeTurn k

def afterAll (j : Join ε α β) (events : List (JoinEvent ε α)) : Join ε α β :=
  events.foldl after j

theorem takeTurn_of_none {k : Nat} (hk : j.agenda[k]? = none) : j.takeTurn k = j := by
  rw [takeTurn, hk]

/-- Who has a turn is on the agenda no more. -/
theorem takeTurn_of_some {k : Nat} {c : Call} (hk : j.agenda[k]? = some c) :
    ∃ rest, (c :: rest).Perm j.agenda ∧ j.takeTurn k = { j with agenda := rest }.answer c := by
  obtain ⟨hlt, rfl⟩ := List.getElem?_eq_some_iff.mp hk
  refine ⟨_, List.getElem_cons_eraseIdx_perm hlt, ?_⟩
  rw [takeTurn, hk]

/-- Either there is no such turn, or someone on the agenda has it and is on the agenda no more. -/
theorem takeTurn_cases (j : Join ε α β) (k : Nat) :
    j.takeTurn k = j ∨
      ∃ c rest, (c :: rest).Perm j.agenda ∧ j.takeTurn k = { j with agenda := rest }.answer c := by
  cases hk : j.agenda[k]? with
  | none => exact .inl (takeTurn_of_none hk)
  | some c => exact .inr ⟨c, takeTurn_of_some hk⟩

/-- Who is on the agenda can have their turn. -/
theorem exists_takeTurn_eq {c : Call} (hc : c ∈ j.agenda) :
    ∃ k rest, (c :: rest).Perm j.agenda ∧ j.takeTurn k = { j with agenda := rest }.answer c := by
  obtain ⟨k, hk⟩ := List.getElem?_of_mem hc
  exact ⟨k, takeTurn_of_some hk⟩

theorem step?_eq (j : Join ε α β) :
    j.step? = if j.agenda = [] then none else some (j.after (.turn 0)) := by
  unfold step? after takeTurn
  cases j.agenda with
  | nil => rfl
  | cons c rest => cases c <;> rfl

/-- The turns that are taken in order are among those that can be taken. -/
theorem exists_turns_settle (j : Join ε α β) :
    ∃ n, j.settle = j.afterAll (List.replicate n (.turn 0)) := by
  suffices h : ∀ m (j : Join ε α β),
      ∃ n, j.stepUpTo m = j.afterAll (List.replicate n (.turn 0)) from h _ j
  intro m
  induction m with
  | zero => exact fun j => ⟨0, rfl⟩
  | succ m ih =>
    intro j
    rw [stepUpTo, step?_eq]
    split
    · exact ⟨0, rfl⟩
    · rename_i next hnext
      split at hnext
      · cases hnext
      · obtain rfl := Option.some.inj hnext
        obtain ⟨n, hn⟩ := ih (j.after (.turn 0))
        exact ⟨n + 1, hn⟩

section Frames

variable {γ : Type} {p : Join ε α β → γ}

theorem IsFixed.takeTurn (hp : IsFixed p) (j : Join ε α β) (k : Nat) :
    p (j.takeTurn k) = p j := by
  obtain hnothing | ⟨c, rest, -, hturn⟩ := takeTurn_cases j k
  · rw [hnothing]
  · have hrest := hp j j.tasks j.phase j.unheard rest
    rw [hturn]
    cases c with
    | task i => exact (hp.wake _ i).trans hrest
    | notice i => exact (hp.hear _ i).trans hrest
    | join => exact (hp.resume _).trans hrest

theorem IsFixed.after (hp : IsFixed p) (j : Join ε α β) {e : JoinEvent ε α} (he : e ≠ .cancel) :
    p (j.after e) = p j := by
  cases e with
  | tell i o => exact hp.inform j i _
  | callOff i => exact hp.inform j i _
  | cancel => exact absurd rfl he
  | turn k => exact hp.takeTurn j k

theorem IsFixed.afterAll (hp : IsFixed p) (j : Join ε α β) {events : List (JoinEvent ε α)}
    (h : .cancel ∉ events) : p (j.afterAll events) = p j := by
  induction events generalizing j with
  | nil => rfl
  | cons e events ih =>
    rw [List.mem_cons, not_or] at h
    exact (ih (j.after e) h.2).trans (hp.after j (Ne.symm h.1))

end Frames

theorem awaited_afterAll (j : Join ε α β) (events : List (JoinEvent ε α)) :
    (j.afterAll events).awaited = j.awaited := by
  induction events generalizing j with
  | nil => rfl
  | cons e events ih =>
    refine (ih (j.after e)).trans ?_
    by_cases he : e = .cancel
    · subst he
      exact apply_cancel (p := awaited) (fun _ _ _ => rfl) j
    · exact IsFixed.after (p := awaited) (fun _ _ _ _ _ => rfl) j he

namespace Sound

theorem takeTurn (h : j.Sound) (k : Nat) : (j.takeTurn k).Sound := by
  obtain hnothing | ⟨c, rest, hperm, hturn⟩ := takeTurn_cases j k
  · rwa [hnothing]
  · rw [hturn]
    cases c with
    | task i => exact h.wake hperm
    | notice i => exact h.hear hperm
    | join => exact h.resume hperm

theorem after (h : j.Sound) (e : JoinEvent ε α) : (j.after e).Sound := by
  cases e with
  | tell i o => exact h.inform i (Task.informs_tell o)
  | callOff i => exact h.inform i Task.informs_callOff
  | cancel => exact h.cancel
  | turn k => exact h.takeTurn k

theorem afterAll (h : j.Sound) (events : List (JoinEvent ε α)) : (j.afterAll events).Sound := by
  induction events generalizing j with
  | nil => exact h
  | cons e events ih => exact ih (h.after e)

end Sound

theorem nodup_eraseDups (is : List Nat) : is.eraseDups.Nodup := by
  induction hlength : is.length using Nat.strong_induction_on generalizing is with
  | h n ih =>
    cases is with
    | nil => simp
    | cons i is =>
      have hlt : (is.filter fun k => !k == i).length < n :=
        hlength ▸ Nat.lt_succ_of_le (List.length_filter_le _ _)
      rw [List.eraseDups_cons, List.nodup_cons]
      exact ⟨by simp [List.mem_eraseDups], ih _ hlt _ rfl⟩

theorem card_toFinset (is : List Nat) : is.toFinset.card = is.eraseDups.length := by
  rw [← List.toFinset_card_of_nodup (nodup_eraseDups is)]
  congr 1
  ext i
  simp [List.mem_eraseDups]

theorem outcome?_startWith (initial : List (Option (Outcome ε α))) (awaited : List Nat)
    (combine : List α → Except ε β) (cancels : Bool) (i : Nat) :
    (startWith initial awaited combine cancels).outcome? i = initial[i]?.join := by
  rw [outcome?, startWith, List.getElem?_map]
  cases initial[i]? <;> rfl

/-- In the beginning the wait is going to hear of all awaited tasks that have ended before. -/
theorem mem_agenda_startWith {initial : List (Option (Outcome ε α))} {awaited : List Nat}
    {combine : List α → Except ε β} {cancels : Bool} {c : Call} :
    c ∈ (startWith initial awaited combine cancels).agenda ↔
      ∃ i ∈ awaited, ((startWith initial awaited combine cancels).outcome? i).isSome = true ∧
        .notice i = c := by
  have hsome (i : Nat) : (initial[i]?.join).isSome = initial[i]?.any Option.isSome := by
    cases initial[i]? <;> rfl
  simp only [outcome?_startWith, hsome]
  simp [startWith, List.mem_eraseDups, and_assoc]

/-- A join that has just begun is sound, however many of its tasks have ended before. -/
theorem sound_startWith {initial : List (Option (Outcome ε α))} {awaited : List Nat}
    (h : ∀ i ∈ awaited, i < initial.length) (combine : List α → Except ε β) (cancels : Bool) :
    (startWith initial awaited combine cancels).Sound := by
  generalize hj : startWith initial awaited combine cancels = j
  have hawaited : j.awaited = awaited := by rw [← hj]; rfl
  have hoff : j.isCalledOff = false := by rw [← hj]; rfl
  have hphase : j.phase = if awaited = [] then .ended (.ofExcept (combine [])) else .waiting := by
    rw [← hj]
    simp [startWith, start]
  have hunheard : j.unheard = awaited.toFinset.card := by
    rw [card_toFinset, ← hj]
    rfl
  have hnews (i : Nat) : j.news? i = j.outcome? i := by
    rw [← hj, outcome?, news?, startWith, List.getElem?_map]
    cases initial[i]? <;> rfl
  have hagenda (c : Call) : c ∈ j.agenda ↔
      ∃ i ∈ awaited, (j.outcome? i).isSome = true ∧ .notice i = c := by
    rw [← hj]
    exact mem_agenda_startWith
  have hall : j.unheardTasks = awaited.toFinset := by
    rw [unheardTasks, hawaited]
    refine Finset.filter_true_of_mem fun i hi => ?_
    rw [hagenda]
    cases ho : j.outcome? i with
    | none => exact .inl rfl
    | some o => exact .inr ⟨i, List.mem_toFinset.mp hi, by rw [ho]; rfl, rfl⟩
  exact {
    inRange := fun i hi => by
      rw [← hj]
      simpa [startWith] using h i (hawaited ▸ hi)
    told := fun i o ho => (hnews i).trans ho
    once := by
      rw [← hj]
      exact ((nodup_eraseDups awaited).filter _).map fun i k heq => Call.notice.inj heq
    task := fun i => by
      rw [hagenda, hnews]
      cases j.outcome? i <;> simp
    notice := fun i hi => by
      obtain ⟨k, hk, hsome, heq⟩ := (hagenda _).mp hi
      obtain rfl := Call.notice.inj heq
      exact ⟨hawaited ▸ hk, hsome⟩
    unheard := fun _ => by rw [hunheard, hall]
    join := by
      rw [hagenda, hphase, hoff]
      split <;> simp
    released := fun hreleased => by
      rw [hphase] at hreleased
      split at hreleased <;> cases hreleased
    waiting := fun hwaiting _ => by
      have hne : awaited ≠ [] := by
        rintro rfl
        rw [hphase] at hwaiting
        cases hwaiting
      refine ⟨?_, fun i e hi he => (hagenda _).mpr ⟨i, hawaited ▸ hi, by rw [he]; rfl, rfl⟩⟩
      obtain ⟨i, hi⟩ := List.exists_mem_of_ne_nil awaited hne
      rw [hunheard]
      exact Finset.card_pos.mpr ⟨i, List.mem_toFinset.mpr hi⟩ }

theorem lt_of_mem_map_val {n : Nat} {is : List (Fin n)} {i : Nat} (h : i ∈ is.map Fin.val) :
    i < n := by
  obtain ⟨k, -, rfl⟩ := List.mem_map.mp h
  exact k.isLt

theorem sound_start {n : Nat} {awaited : List Nat} (h : ∀ i ∈ awaited, i < n)
    (combine : List α → Except ε β) (cancels : Bool) :
    (start n awaited combine cancels).Sound := by
  rw [← startWith_replicate]
  exact sound_startWith (by simpa using h) combine cancels

theorem Sound.settle (h : j.Sound) : j.settle.Sound := by
  obtain ⟨n, hn⟩ := exists_turns_settle j
  rw [hn]
  exact h.afterAll _

end Join

end TypeAtlas.Concurrency
