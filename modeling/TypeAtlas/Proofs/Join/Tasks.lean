import Mathlib.Data.List.Basic
import TypeAtlas.Concurrency.Join

namespace TypeAtlas.Concurrency

namespace Task

variable {ε α : Type}

/-- What a change of a task brings, of which nobody but the task hears at once. -/
structure Informs (f : Task ε α → Task ε α) : Prop where
  outcome : ∀ t, (f t).outcome = t.outcome
  news : ∀ t, t.outcome = none → (f t).news.isSome = true
  kept : ∀ t o, t.outcome = some o → t.news = some o → (f t).news = some o

theorem informs_tell (o : Outcome ε α) : Informs (Task.tell · o) where
  outcome _ := rfl
  news t _ := by cases h : t.news <;> simp [tell, h]
  kept t o _ h := by simp [tell, h]

theorem informs_callOff : Informs (callOff : Task ε α → Task ε α) where
  outcome t := by
    unfold callOff
    split <;> rfl
  news t h := by simp [callOff, isFinished, h]
  kept t o h hnews := by simp [callOff, isFinished, h, hnews]

theorem outcome_watch (t : Task ε α) : t.watch.outcome = t.outcome := by
  unfold watch
  split <;> rfl

theorem news_watch (t : Task ε α) : t.watch.news = t.news := by
  unfold watch
  split <;> rfl

end Task

namespace Join

variable {ε α β : Type} {j : Join ε α β}

/-- How a task has ended, if it has. -/
def outcome? (j : Join ε α β) (i : Nat) : Option (Outcome ε α) :=
  j.tasks[i]?.bind Task.outcome

/-- How a task is going to end, if there are news of that. -/
def news? (j : Join ε α β) (i : Nat) : Option (Outcome ε α) :=
  j.tasks[i]?.bind Task.news

theorem mem_pending {i : Nat} : i ∈ j.pending ↔ i ∈ j.awaited ∧ j.outcome? i = none := by
  rw [pending, List.mem_filter, Option.isNone_iff_eq_none]
  rfl

theorem bind_modify {γ : Type} (tasks : List (Task ε α)) (i k : Nat) (f : Task ε α → Task ε α)
    (g : Task ε α → Option γ) :
    (tasks.modify i f)[k]?.bind g = tasks[k]?.bind fun t => g (if i = k then f t else t) := by
  rw [List.getElem?_modify]
  cases tasks[k]? <;> rfl

/-- A change of a task that leaves alone what is asked for. -/
theorem bind_modify_of_eq {γ : Type} {f : Task ε α → Task ε α} {g : Task ε α → Option γ}
    (h : ∀ t, g (f t) = g t) (tasks : List (Task ε α)) (i k : Nat) :
    (tasks.modify i f)[k]?.bind g = tasks[k]?.bind g := by
  rw [bind_modify]
  congr 1
  funext t
  split
  · exact h t
  · rfl

theorem inform_eq (j : Join ε α β) (i : Nat) (f : Task ε α → Task ε α) :
    j.inform i f =
      { j with
        tasks := j.tasks.modify i f
        agenda := j.agenda ++ if j.tasks[i]?.any Task.isIdle then [.task i] else [] } := by
  unfold inform
  cases htask : j.tasks[i]? with
  | none =>
    have hlength := List.getElem?_eq_none_iff.mp htask
    simp [List.modify_eq_self hlength]
  | some t =>
    have hset : j.tasks.modify i f = j.tasks.set i (f t) := by
      rw [List.modify_eq_set_getElem?, htask]
      rfl
    rw [hset]
    cases hidle : t.isIdle <;> simp [hidle, call]

theorem hear_eq (j : Join ε α β) (i : Nat) :
    j.hear i =
      if j.unheard - 1 = 0 then release { j with unheard := j.unheard - 1 }
      else if (j.outcome? i).any Outcome.isFailure = true then
        release { j with unheard := j.unheard - 1, tasks := j.tasks.modify i Task.see }
      else { j with unheard := j.unheard - 1, tasks := j.tasks.modify i Task.see } :=
  rfl

theorem isEnded_of_waiting (h : j.phase = .waiting) : j.isEnded = false := by
  rw [isEnded, h]

theorem wake_eq (j : Join ε α β) (i : Nat) :
    j.wake i =
      { j with
        tasks := j.tasks.modify i Task.wake
        agenda := j.agenda ++ if j.awaited.contains i && !j.isEnded then [.notice i] else [] } := by
  unfold wake
  cases hcall : j.awaited.contains i && !j.isEnded <;> simp_all [call, isEnded]

/-- To tell tasks to give up has nothing to do with how far the join has come. -/
theorem foldl_callOff_phase (j : Join ε α β) (p : Phase ε β) (is : List Nat) :
    is.foldl Join.callOff { j with phase := p } = { is.foldl Join.callOff j with phase := p } :=
  List.foldl_hom (fun j : Join ε α β => { j with phase := p }) fun j i => by
    rw [Join.callOff, Join.callOff, inform_eq, inform_eq]

/-- To watch tasks is to leave them alone. -/
theorem bind_foldl_watch {γ : Type} {g : Task ε α → Option γ} (hg : ∀ t, g t.watch = g t)
    (is : List Nat) (tasks : List (Task ε α)) (k : Nat) :
    (is.foldl (fun tasks i => tasks.modify i Task.watch) tasks)[k]?.bind g = tasks[k]?.bind g := by
  induction is generalizing tasks with
  | nil => rfl
  | cons i is ih => exact (ih _).trans (bind_modify_of_eq hg tasks i k)

theorem length_foldl_watch (is : List Nat) (tasks : List (Task ε α)) :
    (is.foldl (fun tasks i => tasks.modify i Task.watch) tasks).length = tasks.length := by
  induction is generalizing tasks with
  | nil => rfl
  | cons i is ih => exact (ih _).trans (List.length_modify ..)

theorem conclude_eq (j : Join ε α β) :
    j.conclude =
      let ended := { j with phase := .ended (Outcome.verdict j.combine j.outcomes) }
      let calledOff := if j.cancelsOnFailure then j.pending.foldl callOff ended else ended
      { calledOff with
        tasks := calledOff.awaited.foldl (fun tasks i => tasks.modify i Task.watch)
          calledOff.tasks } := by
  have hphase := foldl_callOff_phase j (.ended (Outcome.verdict j.combine j.outcomes)) j.pending
  simp only [conclude]
  split
  · rw [hphase]
  · rfl

section Effects

variable {γ : Type} {p : Join ε α β → γ}

/-- A part of a join that its own steps do not touch. -/
def IsFixed (p : Join ε α β → γ) : Prop :=
  ∀ j tasks phase unheard agenda, p { j with tasks, phase, unheard, agenda } = p j

theorem IsFixed.inform (hp : IsFixed p) (j : Join ε α β) (i : Nat) (f : Task ε α → Task ε α) :
    p (j.inform i f) = p j := by
  rw [inform_eq]
  exact hp j _ _ _ _

theorem foldl_callOff (hp : ∀ j i, p (callOff j i) = p j) (is : List Nat) (j : Join ε α β) :
    p (is.foldl callOff j) = p j := by
  induction is generalizing j with
  | nil => rfl
  | cons i is ih => exact (ih _).trans (hp j i)

/-- What has nothing to do with how far the join has come stays when its wait is over. -/
theorem apply_release (hp : ∀ (j : Join ε α β) phase agenda, p { j with phase, agenda } = p j)
    (j : Join ε α β) : p j.release = p j := by
  unfold release
  split
  · split
    · rfl
    · exact hp j _ _
  · rfl

/-- What has nothing to do with that stays when the join is told to give up. -/
theorem apply_cancel (hp : ∀ (j : Join ε α β) isCalledOff agenda,
    p { j with isCalledOff, agenda } = p j) (j : Join ε α β) : p j.cancel = p j := by
  unfold cancel
  split
  · split
    · rfl
    · exact hp j _ _
  · exact hp j _ j.agenda
  · rfl

theorem IsFixed.release (hp : IsFixed p) (j : Join ε α β) : p j.release = p j :=
  apply_release (fun j phase agenda => hp j _ phase _ agenda) j

theorem IsFixed.hear (hp : IsFixed p) (j : Join ε α β) (i : Nat) : p (j.hear i) = p j := by
  rw [hear_eq]
  split
  · exact (hp.release _).trans (hp j _ _ _ _)
  · split
    · exact (hp.release _).trans (hp j _ _ _ _)
    · exact hp j _ _ _ _

theorem IsFixed.wake (hp : IsFixed p) (j : Join ε α β) (i : Nat) : p (j.wake i) = p j := by
  rw [wake_eq]
  exact hp j _ _ _ _

theorem IsFixed.conclude (hp : IsFixed p) (j : Join ε α β) : p j.conclude = p j := by
  rw [conclude_eq]
  refine (hp _ _ _ _ _).trans ?_
  split
  · exact (foldl_callOff (fun j i => hp.inform j i _) _ _).trans (hp j _ _ _ _)
  · exact hp j _ _ _ _

theorem IsFixed.resume (hp : IsFixed p) (j : Join ε α β) : p j.resume = p j := by
  unfold Join.resume
  split
  · rfl
  · split
    · exact (hp _ _ _ _ _).trans (foldl_callOff (fun j i => hp.inform j i _) _ _)
    · exact hp.conclude j

theorem outcome?_inform {f : Task ε α → Task ε α} (hf : Task.Informs f) (j : Join ε α β)
    (i : Nat) : (j.inform i f).outcome? = j.outcome? := by
  rw [inform_eq]
  exact funext (bind_modify_of_eq hf.outcome j.tasks i)

theorem news?_inform_self {i : Nat} {t : Task ε α} (ht : j.tasks[i]? = some t)
    (f : Task ε α → Task ε α) : (j.inform i f).news? i = (f t).news := by
  rw [inform_eq, news?, bind_modify, ht, Option.bind_some, if_pos rfl]

theorem news?_inform_of_ne {i k : Nat} (hk : i ≠ k) (f : Task ε α → Task ε α) :
    (j.inform i f).news? k = j.news? k := by
  rw [inform_eq, news?, bind_modify]
  simp only [if_neg hk]
  rfl

/-- Who has news has a turn. -/
theorem mem_agenda_inform {i : Nat} {f : Task ε α → Task ε α} {c : Call} :
    c ∈ (j.inform i f).agenda ↔
      c ∈ j.agenda ∨ c = .task i ∧ j.tasks[i]?.any Task.isIdle = true := by
  rw [inform_eq, List.mem_append]
  split
  · rename_i hidle
    simp [hidle]
  · rename_i hidle
    simp [hidle]

theorem news?_wake (j : Join ε α β) (i : Nat) : (j.wake i).news? = j.news? := by
  rw [wake_eq]
  exact funext (bind_modify_of_eq (f := Task.wake) (fun _ => rfl) j.tasks i)

theorem outcome?_wake_self {i : Nat} (h : j.outcome? i = none) :
    (j.wake i).outcome? i = j.news? i := by
  rw [wake_eq, outcome?, bind_modify, news?]
  rw [outcome?] at h
  cases ht : j.tasks[i]? with
  | none => rfl
  | some t =>
    rw [ht, Option.bind_some] at h
    simp [Task.wake, h]

theorem outcome?_wake_of_ne {i k : Nat} (hk : i ≠ k) : (j.wake i).outcome? k = j.outcome? k := by
  rw [wake_eq, outcome?, bind_modify]
  simp only [if_neg hk]
  rfl

/-- The wait hears of an end that it waits for. -/
theorem mem_agenda_wake {i : Nat} {c : Call} :
    c ∈ (j.wake i).agenda ↔
      c ∈ j.agenda ∨ c = .notice i ∧ i ∈ j.awaited ∧ j.isEnded = false := by
  rw [wake_eq, List.mem_append]
  split <;> simp_all

theorem outcome?_release (j : Join ε α β) : j.release.outcome? = j.outcome? :=
  apply_release (fun _ _ _ => rfl) j

theorem news?_release (j : Join ε α β) : j.release.news? = j.news? :=
  apply_release (fun _ _ _ => rfl) j

theorem unheard_release (j : Join ε α β) : j.release.unheard = j.unheard :=
  apply_release (fun _ _ _ => rfl) j

theorem outcome?_hear (j : Join ε α β) (i : Nat) : (j.hear i).outcome? = j.outcome? := by
  have hsee : (fun k => (j.tasks.modify i Task.see)[k]?.bind Task.outcome) = j.outcome? :=
    funext (bind_modify_of_eq (f := Task.see) (fun _ => rfl) j.tasks i)
  rw [hear_eq]
  split
  · exact outcome?_release _
  · split
    · exact (outcome?_release _).trans hsee
    · exact hsee

theorem news?_hear (j : Join ε α β) (i : Nat) : (j.hear i).news? = j.news? := by
  have hsee : (fun k => (j.tasks.modify i Task.see)[k]?.bind Task.news) = j.news? :=
    funext (bind_modify_of_eq (f := Task.see) (fun _ => rfl) j.tasks i)
  rw [hear_eq]
  split
  · exact news?_release _
  · split
    · exact (news?_release _).trans hsee
    · exact hsee

theorem unheard_hear (j : Join ε α β) (i : Nat) : (j.hear i).unheard = j.unheard - 1 := by
  rw [hear_eq]
  split
  · exact unheard_release _
  · split
    · exact unheard_release _
    · rfl

theorem outcome?_conclude (j : Join ε α β) : j.conclude.outcome? = j.outcome? := by
  rw [conclude_eq]
  refine (funext (bind_foldl_watch Task.outcome_watch _ _)).trans ?_
  split
  · exact foldl_callOff (outcome?_inform Task.informs_callOff) _ _
  · rfl

theorem news?_callOff (j : Join ε α β) (i k : Nat) :
    (j.callOff i).news? k =
      if k = i ∧ j.outcome? k = none ∧ k < j.tasks.length then some .cancelled
      else j.news? k := by
  rw [callOff, inform_eq, news?, bind_modify, news?, outcome?]
  cases ht : j.tasks[k]? with
  | none =>
    have hlength := List.getElem?_eq_none_iff.mp ht
    simp [Nat.not_lt.mpr hlength]
  | some t =>
    have hlength := (List.getElem?_eq_some_iff.mp ht).1
    by_cases hk : i = k
    · subst hk
      cases ho : t.outcome <;> simp [Task.callOff, Task.isFinished, ho, hlength]
    · simp [hk, Ne.symm hk]

theorem news?_foldl_callOff (is : List Nat) (j : Join ε α β) (k : Nat) :
    (is.foldl callOff j).news? k =
      if k ∈ is ∧ j.outcome? k = none ∧ k < j.tasks.length then some .cancelled
      else j.news? k := by
  induction is generalizing j with
  | nil => simp
  | cons i is ih =>
    have hlength : (j.callOff i).tasks.length = j.tasks.length := by
      rw [callOff, inform_eq, List.length_modify]
    rw [List.foldl_cons, ih, hlength, callOff, outcome?_inform Task.informs_callOff, ← callOff,
      news?_callOff]
    grind

/-- A join that ends tells to give up those for whom it has waited and who have not ended, if that is
asked for. -/
theorem news?_conclude (h : ∀ i ∈ j.awaited, i < j.tasks.length) (k : Nat) :
    j.conclude.news? k =
      if j.cancelsOnFailure = true ∧ k ∈ j.awaited ∧ j.outcome? k = none then some .cancelled
      else j.news? k := by
  rw [conclude_eq]
  refine (bind_foldl_watch Task.news_watch _ _ _).trans ?_
  split
  · rename_i hcancels
    refine (news?_foldl_callOff _ _ _).trans (if_congr ?_ rfl rfl)
    rw [and_iff_right hcancels, mem_pending]
    constructor
    · exact fun hk => hk.1
    · exact fun hk => ⟨hk, hk.2, h k hk.1⟩
  · rename_i hcancels
    simp [hcancels]
    rfl

end Effects

end Join

end TypeAtlas.Concurrency
