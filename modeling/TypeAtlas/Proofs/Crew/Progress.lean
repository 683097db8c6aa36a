import TypeAtlas.Proofs.Crew.Order
import TypeAtlas.Proofs.Crew.Steps

namespace TypeAtlas.Concurrency

variable {ν ε α : Type}

/-- Among workers of which the first has not ended there is one that has not ended although all its
parts have. -/
theorem Worker.exists_last_unended (w : Worker ν ε α) (h : w.outcome? = none) :
    ∃ a x, w.at? a = some x ∧ x.outcome? = none ∧ ∀ p ∈ x.parts, p.outcome? ≠ none := by
  by_cases hparts : ∃ p ∈ w.parts, p.outcome? = none
  · obtain ⟨p, hp, hnone⟩ := hparts
    have hlt : sizeOf p < sizeOf w := by
      obtain ⟨job, stage, off, parts⟩ := w
      have hmem := List.sizeOf_lt_of_mem (show p ∈ parts from hp)
      simp only [mk.sizeOf_spec]
      omega
    obtain ⟨i, hi⟩ := List.getElem?_of_mem hp
    obtain ⟨a, x, ha, hx, hended⟩ := exists_last_unended p hnone
    exact ⟨i :: a, x, by rw [Worker.at?_cons, hi]; exact ha, hx, hended⟩
  · exact ⟨[], w, rfl, h, fun p hp hnone => hparts ⟨p, hp, hnone⟩⟩
termination_by sizeOf w

namespace Crew

theorem exists_step_of_calledOff {c : Crew ν ε α} {a : Address} {j : Job ν ε α} {stage : Stage ε α}
    {ps : List (Worker ν ε α)} (ha : c.root.at? a = some (.mk j stage true ps))
    (hstage : ∀ o, stage ≠ .ended o) : ∃ next, c.step? a = some next := by
  unfold step?
  rw [ha]
  cases stage with
  | ended o => exact absurd rfl (hstage o)
  | new => exact ⟨_, rfl⟩
  | operating => exact ⟨_, rfl⟩
  | unwinding => exact ⟨_, rfl⟩
  | joining => exact ⟨_, rfl⟩

theorem exists_step_of_new {c : Crew ν ε α} {a : Address} {j : Job ν ε α}
    {ps : List (Worker ν ε α)} (ha : c.root.at? a = some (.mk j .new false ps)) :
    ∃ next, c.step? a = some next := by
  unfold step?
  rw [ha]
  exact ⟨_, rfl⟩

/-- Whoever uses a slot, or to whom one belongs already, is at an operation and has no parts. -/
theorem Orderly.worker_of_owner {limit : Option Nat} {c : Crew ν ε α} (h : c.Orderly limit)
    {a : Address}
    (hclaim : c.slots.claim a = .inside ∨ c.slots.claim a = .inLine .called ∨
      c.slots.claim a = .inLine .calledOff) :
    ∃ j stage off, c.root.at? a = some (.mk j stage off []) ∧
      (stage = .operating ∨ stage = .unwinding) := by
  have hfit := h.fits a
  have hsome : c.slots.claim a ≠ .none := by
    obtain heq | heq | heq := hclaim <;> simp [heq]
  cases ha : c.root.at? a with
  | none =>
    rw [Worker.head?, ha] at hfit
    exact absurd hfit.of_nobody hsome
  | some w =>
    obtain ⟨j, stage, off, ps⟩ := w
    rw [Worker.head?, ha, Option.map_some] at hfit
    cases stage with
    | ended o => exact absurd hfit.of_ended hsome
    | new => exact absurd hfit.of_new.2 hsome
    | joining => exact absurd hfit.of_joining.2 hsome
    | unwinding =>
      obtain rfl := List.length_eq_zero_iff.mp hfit.of_unwinding.1
      exact ⟨j, _, off, rfl, .inr rfl⟩
    | operating =>
      have hcount : ps.length = 0 := by
        cases off with
        | true => exact hfit.of_leaving.1
        | false => exact hfit.of_operating.1
      obtain rfl := List.length_eq_zero_iff.mp hcount
      exact ⟨j, _, off, rfl, .inl rfl⟩

/-- And such a worker can go on. -/
theorem Orderly.exists_step_of_owner {limit : Option Nat} {c : Crew ν ε α} (h : c.Orderly limit)
    {a : Address}
    (hclaim : c.slots.claim a = .inside ∨ c.slots.claim a = .inLine .called ∨
      c.slots.claim a = .inLine .calledOff) : ∃ next, c.step? a = some next := by
  obtain ⟨j, stage, off, ha, hstage⟩ := h.worker_of_owner hclaim
  cases off with
  | true =>
    apply exists_step_of_calledOff ha
    obtain rfl | rfl := hstage <;> simp
  | false =>
    have hfit := h.fits a
    rw [Worker.head?, ha, Option.map_some] at hfit
    obtain rfl | rfl := hstage
    · obtain ⟨_, ⟨notes, next, rfl⟩, hfits⟩ := hfit.of_operating
      unfold Crew.step?
      rw [ha]
      simp only [List.contains_iff_mem]
      by_cases hin : a ∈ c.slots.inside
      · exact ⟨_, if_pos hin⟩
      · have howns : a ∈ c.slots.owners := by
          obtain heq | heq | heq := hclaim
          · exact absurd (Slots.claim_eq_inside_iff.mp heq) hin
          · exact Slots.mem_owners_of_turn? (Slots.claim_eq_inLine_iff.mp heq).2 (by simp)
          · simp [heq] at hfits
        rw [if_neg hin, if_pos howns]
        exact ⟨_, rfl⟩
    · exact absurd hfit.of_unwinding.2.1 (by simp)

/-- While a worker has not ended there is someone who can go on. -/
theorem Orderly.exists_step_of_unended {limit : Option Nat} {c : Crew ν ε α} (h : c.Orderly limit)
    (hlimit : limit ≠ some 0) {b : Address} {w : Worker ν ε α} (hb : c.root.at? b = some w)
    (hw : w.outcome? = none) : ∃ a next, c.step? a = some next := by
  obtain ⟨below, ⟨j, stage, off, ps⟩, hbelow, hunended, hparts⟩ := w.exists_last_unended hw
  have ha : c.root.at? (b ++ below) = some (.mk j stage off ps) := by
    rw [Worker.at?_append, hb, Option.bind_some, hbelow]
  have hfit := h.fits (b ++ below)
  rw [Worker.head?, ha, Option.map_some] at hfit
  cases off with
  | true =>
    refine ⟨b ++ below, exists_step_of_calledOff ha fun o ho => ?_⟩
    rw [ho] at hunended
    cases hunended
  | false =>
    cases stage with
    | ended o => cases hunended
    | new => exact ⟨b ++ below, exists_step_of_new ha⟩
    | unwinding => exact absurd hfit.of_unwinding.2.1 (by simp)
    | operating =>
      obtain ⟨_, _, hclaim⟩ := hfit.of_operating
      obtain hclaim | hclaim | hclaim := hclaim
      · exact ⟨b ++ below, h.exists_step_of_owner (.inl hclaim)⟩
      · obtain ⟨owner, howner⟩ := h.sound.exists_owner_of_waiting hlimit hclaim
        exact ⟨owner, h.exists_step_of_owner howner⟩
      · exact ⟨b ++ below, h.exists_step_of_owner (.inr (.inl hclaim))⟩
    | joining =>
      obtain ⟨⟨parts, combine, rfl⟩, _⟩ := hfit.of_joining
      have hwait : Outcome.endWait (ps.map Worker.outcome?) = true := by
        rw [Outcome.endWait, Bool.or_eq_true]
        refine .inl (List.all_eq_true.mpr fun o ho => ?_)
        obtain ⟨p, hp, rfl⟩ := List.mem_map.mp ho
        exact Option.isSome_iff_ne_none.mpr (hparts p hp)
      refine ⟨b ++ below, c.conclude (b ++ below) ps combine, ?_⟩
      unfold Crew.step?
      rw [ha]
      simp only [hwait, if_true]

/-- The work never gets stuck: as long as it has not ended, there is someone who can go on. -/
theorem Orderly.exists_step {limit : Option Nat} {c : Crew ν ε α} (h : c.Orderly limit)
    (hlimit : limit ≠ some 0) (hroot : c.root.outcome? = none) :
    ∃ a next, c.step? a = some next :=
  h.exists_step_of_unended (b := []) hlimit rfl hroot

/-- The crews that come of one when its workers go on in any order, and anyone may be told from
outside to give up at any time. -/
inductive Reachable (c : Crew ν ε α) : Crew ν ε α → Prop
  | refl : Reachable c c
  | step {s next : Crew ν ε α} {a : Address} :
      Reachable c s → s.step? a = some next → Reachable c next
  | callOff {s : Crew ν ε α} (a : Address) : Reachable c s → Reachable c (s.callOff a)

theorem Reachable.run {c s : Crew ν ε α} (h : Reachable c s) (schedule : List Address) :
    Reachable c (s.run schedule) :=
  run_induction h (fun _ _ _ hreach hstep => hreach.step hstep) schedule

theorem Orderly.reachable {limit : Option Nat} {c s : Crew ν ε α} (h : c.Orderly limit)
    (hs : Reachable c s) : s.Orderly limit := by
  induction hs with
  | refl => exact h
  | step _ hstep ih => exact ih.next hstep
  | callOff a _ ih => exact ih.callOff a

/-- Whoever uses a slot, or has been given one, is at an operation, has no parts to wait for, and
can go on. -/
theorem Orderly.holder {limit : Option Nat} {c : Crew ν ε α} (h : c.Orderly limit) {a : Address}
    (ha : a ∈ c.slots.inside ∨ a ∈ c.slots.owners) :
    ∃ w next, c.root.at? a = some w ∧ (w.stage = .operating ∨ w.stage = .unwinding) ∧
      w.parts = [] ∧ c.step? a = some next := by
  have hclaim := (Slots.mem_inside_or_owners_iff h.sound.once).mp ha
  obtain ⟨j, stage, off, hat, hstage⟩ := h.worker_of_owner hclaim
  obtain ⟨next, hstep⟩ := h.exists_step_of_owner hclaim
  exact ⟨_, next, hat, hstage, rfl, hstep⟩

/-- However a crew goes on, it comes to its end: while it has not, someone can go on, and then less
is left to do. Nobody holds a slot while waiting for parts, or for a second slot. -/
structure IsDeadlockFree (c : Crew ν ε α) : Prop where
  goesOn : ∀ s, Reachable c s → s.root.outcome? = none →
    ∃ a next, s.step? a = some next ∧ next.stepsLeft < s.stepsLeft
  holder : ∀ s, Reachable c s → ∀ a, a ∈ s.slots.inside ∨ a ∈ s.slots.owners →
    ∃ w next, s.root.at? a = some w ∧ (w.stage = .operating ∨ w.stage = .unwinding) ∧
      w.parts = [] ∧ s.step? a = some next
  once : ∀ s, Reachable c s → (s.slots.inside ++ s.slots.waiting).Nodup

theorem isDeadlockFree_start {limit : Option Nat} (hlimit : limit ≠ some 0) (j : Job ν ε α)
    (cancels : Bool) : (start j limit cancels).IsDeadlockFree where
  goesOn s hs hroot := by
    have horder := (orderly_start j limit cancels).reachable hs
    obtain ⟨a, next, hstep⟩ := horder.exists_step hlimit hroot
    exact ⟨a, next, hstep, stepsLeft_lt_of_step? horder.sound.once hstep⟩
  holder s hs _ ha := ((orderly_start j limit cancels).reachable hs).holder ha
  once s hs := ((orderly_start j limit cancels).reachable hs).sound.once

end Crew

end TypeAtlas.Concurrency
