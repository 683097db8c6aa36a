import TypeAtlas.Proofs.Crew.Addresses

namespace TypeAtlas.Concurrency

variable {ν ε α : Type}

namespace Worker

/-- The worker who has come to a job. -/
def takenOn (j : Job ν ε α) (w : Worker ν ε α) : Worker ν ε α :=
  match j with
  | .done v => w.withStage (.ended (.value v))
  | .fail e => w.withStage (.ended (.failure e))
  | .operation notes next => .mk (.operation notes next) .operating w.isCalledOff []
  | .join [] combine => w.withStage (.ended (.value (combine []).2))
  | .join parts combine => .mk (.join parts combine) .joining w.isCalledOff (parts.map .ofJob)

/-- The worker whose parts have all been told to give up. -/
def partsCalledOff : Worker ν ε α → Worker ν ε α
  | .mk job stage off parts => .mk job stage off (parts.map callOff)

/-- The worker of whose parts the first `n` have been told to give up. -/
def callOffFirst (n : Nat) : Worker ν ε α → Worker ν ε α
  | .mk job stage off parts =>
    .mk job stage off ((List.range n).foldl (fun ps i => ps.modify i callOff) parts)

theorem callOffFirst_zero (w : Worker ν ε α) : w.callOffFirst 0 = w := by
  cases w
  rfl

theorem callOffFirst_succ (w : Worker ν ε α) (n : Nat) :
    w.callOffFirst (n + 1) = (w.callOffFirst n).update callOff [n] := by
  cases w
  simp [callOffFirst, update, List.range_succ]

theorem getElem?_foldl_callOff (n : Nat) (ps : List (Worker ν ε α)) (k : Nat) :
    ((List.range n).foldl (fun ps i => ps.modify i callOff) ps)[k]? =
      if k < n then ps[k]?.map callOff else ps[k]? := by
  induction n with
  | zero => rfl
  | succ n ih =>
    rw [List.range_succ, List.foldl_append, List.foldl_cons, List.foldl_nil, List.getElem?_modify,
      ih]
    by_cases hkn : n = k
    · subst hkn
      simp
    · have hiff : k < n + 1 ↔ k < n := by omega
      simp [hkn, hiff]

theorem callOffFirst_length (w : Worker ν ε α) :
    w.callOffFirst w.parts.length = w.partsCalledOff := by
  obtain ⟨job, stage, off, parts⟩ := w
  simp only [callOffFirst, partsCalledOff, Worker.parts, Worker.mk.injEq, true_and]
  apply List.ext_getElem?
  intro k
  rw [getElem?_foldl_callOff, List.getElem?_map]
  by_cases hk : k < parts.length
  · rw [if_pos hk]
  · rw [if_neg hk, List.getElem?_eq_none (Nat.le_of_not_lt hk)]
    rfl

end Worker

namespace Slots

/-- The slots after all parts of the worker at `a` have been told to give up. -/
def callOffParts (s : Slots Address) (a : Address) (count : Nat) : Slots Address :=
  (List.range count).foldl (fun s i => s.callOff (a ++ [i])) s

/-- The slots after the worker at `a` has come to a job. -/
def afterTakingOn (s : Slots Address) (a : Address) : Job ν ε α → Slots Address
  | .operation _ _ => s.enter a
  | _ => s

end Slots

/-- What one step makes of the worker whose turn it is and of the slots. -/
inductive Moves (s : Slots Address) (cancels : Bool) (a : Address) :
    Worker ν ε α → Worker ν ε α → Slots Address → Prop
  | withdraw {j ps} : Moves s cancels a (.mk j .new true ps) (.mk j (.ended .cancelled) true ps) s
  | breakOff {j ps} : a ∈ s.inside →
      Moves s cancels a (.mk j .operating true ps) (.mk j .unwinding true ps) s
  | stepOut {j ps} : a ∉ s.inside →
      Moves s cancels a (.mk j .operating true ps) (.mk j (.ended .cancelled) true ps) (s.takeUp a)
  | unwind {j ps} :
      Moves s cancels a (.mk j .unwinding true ps) (.mk j (.ended .cancelled) true ps) (s.leave a)
  | abandon {j ps} :
      Moves s cancels a (.mk j .joining true ps)
        (.mk j (.ended .cancelled) true (ps.map Worker.callOff)) (s.callOffParts a ps.length)
  | begin {j ps} :
      Moves s cancels a (.mk j .new false ps) (Worker.takenOn j (.mk j .new false ps))
        (s.afterTakingOn a j)
  | goOn {notes next ps} : a ∈ s.inside →
      Moves s cancels a (.mk (.operation notes next) .operating false ps)
        (Worker.takenOn next (.mk (.operation notes next) .operating false ps))
        ((s.leave a).afterTakingOn a next)
  | takeUp {notes next ps} : a ∉ s.inside → a ∈ s.owners →
      Moves s cancels a (.mk (.operation notes next) .operating false ps)
        (.mk (.operation notes next) .operating false ps) (s.takeUp a)
  | conclude {js combine ps} : Outcome.endWait (ps.map Worker.outcome?) = true →
      Moves s cancels a (.mk (.join js combine) .joining false ps)
        (.mk (.join js combine)
          (.ended (.verdict (fun found => .ok (combine found).2) (ps.map Worker.outcome?))) false
          (if cancels then ps.map Worker.callOff else ps))
        (if cancels then s.callOffParts a ps.length else s)

namespace Crew

/-- What holds of a crew, and goes on to hold whoever goes on, holds after every schedule. -/
theorem run_induction {motive : Crew ν ε α → Prop} {c : Crew ν ε α} (hstart : motive c)
    (hstep : ∀ s next a, motive s → s.step? a = some next → motive next)
    (schedule : List Address) : motive (c.run schedule) := by
  induction schedule generalizing c with
  | nil => exact hstart
  | cons a rest ih =>
    refine ih (c := (c.step? a).getD c) ?_
    cases hnext : c.step? a with
    | none => exact hstart
    | some next => exact hstep c next a hstart hnext

/-- Coming to a job is a change of one worker, and an operation is also one of the slots. -/
theorem takeOn_eq (c : Crew ν ε α) (a : Address) (j : Job ν ε α) :
    c.takeOn a j =
      { c with root := c.root.update (·.takenOn j) a, slots := c.slots.afterTakingOn a j } := by
  cases j with
  | done v => rfl
  | fail e => rfl
  | operation notes next => rfl
  | join parts combine => cases parts <;> rfl

/-- Telling parts of a worker to give up is a change of that worker, and of the line. -/
theorem callOffParts_eq (c : Crew ν ε α) (a : Address) (n : Nat) :
    c.callOffParts a n =
      { c with root := c.root.update (·.callOffFirst n) a, slots := c.slots.callOffParts a n } := by
  induction n with
  | zero =>
    have hroot := Worker.update_eq_self (f := (·.callOffFirst 0)) Worker.callOffFirst_zero c.root a
    rw [hroot]
    rfl
  | succ n ih =>
    have hstep : c.callOffParts a (n + 1) = (c.callOffParts a n).callOff (a ++ [n]) := by
      simp only [callOffParts, List.range_succ, List.foldl_append, List.foldl_cons, List.foldl_nil]
    have hslots : c.slots.callOffParts a (n + 1) =
        (c.slots.callOffParts a n).callOff (a ++ [n]) := by
      simp only [Slots.callOffParts, List.range_succ, List.foldl_append, List.foldl_cons,
        List.foldl_nil]
    rw [hstep, ih, hslots]
    simp only [callOff, update, Worker.update_append, Worker.update_update]
    congr 2
    funext w
    exact (w.callOffFirst_succ n).symm

/-- How a worker gives up who has been told to and has not ended. -/
theorem moves_giveUp (c : Crew ν ε α) (a : Address) (j : Job ν ε α) (stage : Stage ε α)
    (ps : List (Worker ν ε α)) (hstage : ∀ o, stage ≠ .ended o) :
    ∃ f s, c.giveUp a (.mk j stage true ps) = { c with root := c.root.update f a, slots := s } ∧
      Moves c.slots c.cancelsOnFailure a (.mk j stage true ps) (f (.mk j stage true ps)) s := by
  cases stage with
  | new => exact ⟨Worker.withStage (.ended .cancelled), c.slots, rfl, .withdraw⟩
  | operating =>
    by_cases hin : a ∈ c.slots.inside
    · refine ⟨Worker.withStage .unwinding, c.slots, ?_, .breakOff hin⟩
      simp [giveUp, Worker.stage, hin, update]
    · refine ⟨Worker.withStage (.ended .cancelled), c.slots.takeUp a, ?_, .stepOut hin⟩
      simp [giveUp, Worker.stage, hin, finish, takeUp, update]
  | unwinding => exact ⟨Worker.withStage (.ended .cancelled), c.slots.leave a, rfl, .unwind⟩
  | joining =>
    refine ⟨Worker.withStage (.ended .cancelled) ∘ (·.callOffFirst ps.length),
      c.slots.callOffParts a ps.length, ?_, ?_⟩
    · simp only [giveUp, Worker.stage, Worker.parts, callOffParts_eq, finish, update,
        Worker.update_update]
    · have hoff := Worker.callOffFirst_length (Worker.mk j .joining true ps)
      rw [Worker.parts] at hoff
      rw [Function.comp, hoff]
      exact .abandon
  | ended o => exact absurd rfl (hstage o)

/-- How a join ends whose wait is over. -/
theorem moves_conclude (c : Crew ν ε α) (a : Address) (js : List (Job ν ε α))
    (combine : List α → List ν × α) (ps : List (Worker ν ε α))
    (hwait : Outcome.endWait (ps.map Worker.outcome?) = true) :
    ∃ f s, c.conclude a ps combine = { c with root := c.root.update f a, slots := s } ∧
      Moves c.slots c.cancelsOnFailure a (.mk (.join js combine) .joining false ps)
        (f (.mk (.join js combine) .joining false ps)) s := by
  have hmove : Moves c.slots c.cancelsOnFailure a (.mk (.join js combine) .joining false ps) _ _ :=
    .conclude hwait
  let ended : Stage ε α :=
    .ended (.verdict (fun found => .ok (combine found).2) (ps.map Worker.outcome?))
  cases hcancels : c.cancelsOnFailure with
  | false =>
    refine ⟨Worker.withStage ended, c.slots, ?_, ?_⟩
    · simp [conclude, hcancels, finish, update, ended]
    · simp only [hcancels, Bool.false_eq_true, if_false] at hmove
      exact hmove
  | true =>
    refine ⟨Worker.withStage ended ∘ (·.callOffFirst ps.length),
      c.slots.callOffParts a ps.length, ?_, ?_⟩
    · simp [conclude, hcancels, callOffParts_eq, finish, update, Worker.update_update, ended]
    · have hoff := Worker.callOffFirst_length (Worker.mk (.join js combine) .joining false ps)
      rw [Worker.parts] at hoff
      rw [Function.comp, hoff]
      simp only [hcancels, if_true] at hmove
      exact hmove

/-- What a step does: it changes one worker and the slots in one of the ways of `Moves`. -/
theorem moves_of_step? {c next : Crew ν ε α} {a : Address} (h : c.step? a = some next) :
    ∃ w f s, c.root.at? a = some w ∧ next = { c with root := c.root.update f a, slots := s } ∧
      Moves c.slots c.cancelsOnFailure a w (f w) s := by
  unfold step? at h
  cases ha : c.root.at? a with
  | none => simp [ha] at h
  | some w =>
    obtain ⟨j, stage, off, ps⟩ := w
    simp only [ha] at h
    cases stage with
    | ended o => simp at h
    | new =>
      cases off with
      | true =>
        obtain ⟨f, s, heq, hmove⟩ := moves_giveUp c a j .new ps (by simp)
        exact ⟨_, f, s, rfl, (Option.some.inj h).symm.trans heq, hmove⟩
      | false =>
        refine ⟨_, (·.takenOn j), _, rfl, ?_, .begin⟩
        rw [← takeOn_eq]
        exact (Option.some.inj h).symm
    | unwinding =>
      cases off with
      | true =>
        obtain ⟨f, s, heq, hmove⟩ := moves_giveUp c a j .unwinding ps (by simp)
        exact ⟨_, f, s, rfl, (Option.some.inj h).symm.trans heq, hmove⟩
      | false => cases j <;> simp at h
    | operating =>
      cases off with
      | true =>
        obtain ⟨f, s, heq, hmove⟩ := moves_giveUp c a j .operating ps (by simp)
        exact ⟨_, f, s, rfl, (Option.some.inj h).symm.trans heq, hmove⟩
      | false =>
        cases j with
        | done v => simp at h
        | fail e => simp at h
        | join js combine => simp at h
        | operation notes rest =>
          simp only [List.contains_iff_mem] at h
          by_cases hin : a ∈ c.slots.inside
          · rw [if_pos hin] at h
            refine ⟨_, (·.takenOn rest), _, rfl, ?_, .goOn hin⟩
            rw [← Option.some.inj h, takeOn_eq]
            rfl
          · rw [if_neg hin] at h
            by_cases howns : a ∈ c.slots.owners
            · rw [if_pos howns] at h
              refine ⟨_, id, _, rfl, ?_, .takeUp hin howns⟩
              rw [← Option.some.inj h, Worker.update_eq_self (f := id) fun x => rfl]
              rfl
            · simp [howns] at h
    | joining =>
      cases off with
      | true =>
        obtain ⟨f, s, heq, hmove⟩ := moves_giveUp c a j .joining ps (by simp)
        exact ⟨_, f, s, rfl, (Option.some.inj h).symm.trans heq, hmove⟩
      | false =>
        cases j with
        | done v => simp at h
        | fail e => simp at h
        | operation notes rest => simp at h
        | join js combine =>
          simp only at h
          by_cases hwait : Outcome.endWait (ps.map Worker.outcome?) = true
          · obtain ⟨f, s, heq, hmove⟩ := moves_conclude c a js combine ps hwait
            rw [if_pos hwait] at h
            exact ⟨_, f, s, rfl, (Option.some.inj h).symm.trans heq, hmove⟩
          · simp [hwait] at h

end Crew

end TypeAtlas.Concurrency
