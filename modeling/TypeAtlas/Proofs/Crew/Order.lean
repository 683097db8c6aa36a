import TypeAtlas.Proofs.Crew.Moves
import TypeAtlas.Proofs.Slots.Conservation

namespace TypeAtlas.Concurrency

open Worker

variable {ν ε α : Type}

/-- How a worker and its claim to a slot fit together: only one that is at an operation has a claim,
and it has no parts then; one that is told to give up stands in line only to hand on a slot. -/
inductive Fits : Option (Head ν ε α) → Claim → Prop
  | nobody : Fits none .none
  | new {j off} : Fits (some ⟨j, .new, off, 0⟩) .none
  | operating {notes next} {claim : Claim} :
      claim = .inside ∨ claim = .inLine .waiting ∨ claim = .inLine .called →
        Fits (some ⟨.operation notes next, .operating, false, 0⟩) claim
  | leaving {notes next} {claim : Claim} :
      claim = .inside ∨ claim = .inLine .calledOff ∨ claim = .none →
        Fits (some ⟨.operation notes next, .operating, true, 0⟩) claim
  | unwinding {j} : Fits (some ⟨j, .unwinding, true, 0⟩) .inside
  | joining {parts combine off n} : Fits (some ⟨.join parts combine, .joining, off, n⟩) .none
  | ended {j o off n} : Fits (some ⟨j, .ended o, off, n⟩) .none

theorem Fits.of_nobody {c : Claim} (h : Fits (none : Option (Head ν ε α)) c) : c = .none := by
  cases h
  rfl

theorem Fits.of_new {j : Job ν ε α} {off : Bool} {n : Nat} {c : Claim}
    (h : Fits (some ⟨j, .new, off, n⟩) c) : n = 0 ∧ c = .none := by
  cases h
  exact ⟨rfl, rfl⟩

theorem Fits.of_operating {j : Job ν ε α} {n : Nat} {c : Claim}
    (h : Fits (some ⟨j, .operating, false, n⟩) c) :
    n = 0 ∧ (∃ notes next, j = .operation notes next) ∧
      (c = .inside ∨ c = .inLine .waiting ∨ c = .inLine .called) := by
  cases h with
  | operating hclaim => exact ⟨rfl, ⟨_, _, rfl⟩, hclaim⟩

theorem Fits.of_leaving {j : Job ν ε α} {n : Nat} {c : Claim}
    (h : Fits (some ⟨j, .operating, true, n⟩) c) :
    n = 0 ∧ (c = .inside ∨ c = .inLine .calledOff ∨ c = .none) := by
  cases h with
  | leaving hclaim => exact ⟨rfl, hclaim⟩

theorem Fits.of_unwinding {j : Job ν ε α} {off : Bool} {n : Nat} {c : Claim}
    (h : Fits (some ⟨j, .unwinding, off, n⟩) c) : n = 0 ∧ off = true ∧ c = .inside := by
  cases h
  exact ⟨rfl, rfl, rfl⟩

theorem Fits.of_joining {j : Job ν ε α} {off : Bool} {n : Nat} {c : Claim}
    (h : Fits (some ⟨j, .joining, off, n⟩) c) :
    (∃ parts combine, j = .join parts combine) ∧ c = .none := by
  cases h
  exact ⟨⟨_, _, rfl⟩, rfl⟩

theorem Fits.of_ended {j : Job ν ε α} {o : Outcome ε α} {off : Bool} {n : Nat} {c : Claim}
    (h : Fits (some ⟨j, .ended o, off, n⟩) c) : c = .none := by
  cases h
  rfl

/-- That the next in line is called does not disturb anybody. -/
theorem Fits.advance {head : Option (Head ν ε α)} {c d : Claim} (h : Fits head c)
    (hcd : c.Advances d) : Fits head d := by
  obtain rfl | ⟨rfl, rfl⟩ := hcd
  · exact h
  · cases h with
    | operating _ => exact .operating (.inr (.inr rfl))
    | leaving hclaim => simp at hclaim

/-- Nor is anybody disturbed who is told to give up, and steps out of the line if still waiting. -/
theorem Fits.callOff {head : Head ν ε α} {c : Claim} (h : Fits (some head) c) :
    Fits (some head.callOff) c.afterCallOff := by
  cases h with
  | new => exact .new
  | operating hclaim =>
    obtain rfl | rfl | rfl := hclaim
    · exact .leaving (.inl rfl)
    · exact .leaving (.inr (.inr rfl))
    · exact .leaving (.inr (.inl rfl))
  | leaving hclaim =>
    obtain rfl | rfl | rfl := hclaim
    · exact .leaving (.inl rfl)
    · exact .leaving (.inr (.inl rfl))
    · exact .leaving (.inr (.inr rfl))
  | unwinding => exact .unwinding
  | joining => exact .joining
  | ended => exact .ended

/-- The slots are sound, and everyone's claim to one fits how far they have come. -/
structure Crew.Orderly (limit : Option Nat) (c : Crew ν ε α) : Prop where
  sound : c.slots.Sound limit
  fits : ∀ b, Fits (c.root.head? b) (c.slots.claim b)

namespace Crew

theorem orderly_start (j : Job ν ε α) (limit : Option Nat) (cancels : Bool) :
    (start j limit cancels).Orderly limit where
  sound := Slots.sound_ofLimit limit
  fits b := by
    cases b with
    | nil => exact .new
    | cons i rest => exact .nobody

/-- A change of one worker and of its claim keeps the order if the two fit afterwards. -/
theorem Orderly.change {limit : Option Nat} {c : Crew ν ε α} (h : c.Orderly limit) {a : Address}
    {w : Worker ν ε α} {f : Worker ν ε α → Worker ν ε α} {s : Slots Address}
    (ha : c.root.at? a = some w) (hparts : (f w).parts = w.parts) (hs : s.Sound limit)
    (hothers : ∀ b, b ≠ a → (c.slots.claim b).Advances (s.claim b))
    (hfits : Fits (some (f w).head) (s.claim a)) :
    Orderly limit { c with root := c.root.update f a, slots := s } where
  sound := hs
  fits b := by
    by_cases hb : b = a
    · subst hb
      rw [head?_update_self ha]
      exact hfits
    · rw [head?_update_of_ne ha hparts hb]
      exact (h.fits b).advance (hothers b hb)

/-- Telling anyone to give up keeps the order. -/
theorem Orderly.callOff {limit : Option Nat} {c : Crew ν ε α} (h : c.Orderly limit) (a : Address) :
    (c.callOff a).Orderly limit := by
  have hfit := h.fits a
  cases ha : c.root.at? a with
  | none =>
    rw [head?, ha] at hfit
    have hslots := Slots.callOff_of_absent (Slots.claim_eq_none_iff.mp hfit.of_nobody).2
    rw [Crew.callOff, Crew.update, update_of_absent ha, hslots]
    exact h
  | some w =>
    rw [head?, ha, Option.map_some] at hfit
    refine h.change ha (parts_callOff w) (h.sound.callOff a) (fun b hb => ?_) ?_
    · exact .inl (Slots.claim_callOff_of_ne h.sound.once hb)
    · rw [Slots.claim_callOff_self h.sound.once, head_callOff]
      exact hfit.callOff

theorem Orderly.callOffParts {limit : Option Nat} {c : Crew ν ε α} (h : c.Orderly limit)
    (a : Address) (n : Nat) : (c.callOffParts a n).Orderly limit := by
  induction n with
  | zero => exact h
  | succ n ih =>
    simp only [Crew.callOffParts, List.range_succ, List.foldl_append, List.foldl_cons,
      List.foldl_nil] at ih ⊢
    exact ih.callOff (a ++ [n])

/-- A worker that goes over to waiting for its parts, which have not begun, keeps the order. -/
theorem Orderly.beginJoin {limit : Option Nat} {c : Crew ν ε α} (h : c.Orderly limit) {a : Address}
    {j : Job ν ε α} {stage : Stage ε α} {off : Bool} {js : List (Job ν ε α)}
    {combine : List α → List ν × α} {f : Worker ν ε α → Worker ν ε α} {s : Slots Address}
    (ha : c.root.at? a = some (.mk j stage off []))
    (hf : f (.mk j stage off []) = .mk (.join js combine) .joining off (js.map .ofJob))
    (hs : s.Sound limit) (hothers : ∀ b, b ≠ a → (c.slots.claim b).Advances (s.claim b))
    (hclaim : s.claim a = .none) :
    Orderly limit { c with root := c.root.update f a, slots := s } := by
  refine { sound := hs, fits := fun b => ?_ }
  by_cases hstart : a <+: b
  · obtain ⟨below, rfl⟩ := hstart
    rw [head?, at?_update_append, ha, Option.bind_some, hf]
    cases below with
    | nil =>
      rw [List.append_nil, hclaim]
      exact .joining
    | cons i below =>
      have hfit := h.fits (a ++ i :: below)
      rw [head?, at?_append, ha] at hfit
      have hnone : s.claim (a ++ i :: below) = .none := by
        have hadvance := hothers (a ++ i :: below) (by simp)
        rw [hfit.of_nobody] at hadvance
        obtain heq | ⟨heq, _⟩ := hadvance
        · exact heq
        · cases heq
      rw [hnone, at?_cons, Worker.parts, List.getElem?_map]
      cases js[i]? with
      | none => exact .nobody
      | some part =>
        cases below with
        | nil => exact .new
        | cons k below => exact .nobody
  · have hb : b ≠ a := fun heq => hstart (heq ▸ List.prefix_rfl)
    rw [head?_update_of_not_above hstart]
    exact (h.fits b).advance (hothers b hb)

/-- A worker that comes to a job, with no claim left, keeps the order. -/
theorem Orderly.takenOn {limit : Option Nat} {c : Crew ν ε α} (h : c.Orderly limit) {a : Address}
    {w : Worker ν ε α} {f : Worker ν ε α → Worker ν ε α} {s : Slots Address} {j : Job ν ε α}
    (ha : c.root.at? a = some w) (hf : f w = w.takenOn j) (hparts : w.parts = [])
    (hoff : w.isCalledOff = false) (hs : s.Sound limit)
    (hothers : ∀ b, b ≠ a → (c.slots.claim b).Advances (s.claim b)) (hclaim : s.claim a = .none) :
    Orderly limit { c with root := c.root.update f a, slots := s.afterTakingOn a j } := by
  obtain ⟨job, stage, off, ps⟩ := w
  obtain rfl : ps = [] := hparts
  obtain rfl : off = false := hoff
  have hended (o : Outcome ε α) (heq : f (.mk job stage false []) = .mk job (.ended o) false []) :
      Orderly limit { c with root := c.root.update f a, slots := s } := by
    refine h.change ha (by rw [heq]; rfl) hs hothers ?_
    rw [heq, hclaim]
    exact .ended
  cases j with
  | done v => exact hended _ hf
  | fail e => exact hended _ hf
  | operation notes next =>
    refine h.change ha (by rw [hf]; rfl) (hs.enter a) (fun b hb => ?_) ?_
    · rw [Slots.afterTakingOn, Slots.claim_enter_of_ne s hb]
      exact hothers b hb
    · rw [hf]
      obtain hin | hwait := Slots.claim_enter_self hclaim
      · exact .operating (.inl hin)
      · exact .operating (.inr (.inl hwait))
  | join parts combine =>
    cases parts with
    | nil => exact hended _ hf
    | cons part rest => exact h.beginJoin ha hf hs hothers hclaim

/-- A worker that gives up on its parts, or has its verdict, has no claim and keeps the order. -/
theorem Orderly.endJoin {limit : Option Nat} {c : Crew ν ε α} (h : c.Orderly limit) {a : Address}
    {j : Job ν ε α} {off : Bool} {ps : List (Worker ν ε α)} {f : Worker ν ε α → Worker ν ε α}
    {o : Outcome ε α} (ha : c.root.at? a = some (.mk j .joining off ps))
    (hf : f (.mk j .joining off ps) = .mk j (.ended o) off (ps.map Worker.callOff)) :
    Orderly limit
      { c with root := c.root.update f a, slots := c.slots.callOffParts a ps.length } := by
  have hoff := h.callOffParts a ps.length
  rw [callOffParts_eq] at hoff
  have hlength := callOffFirst_length (Worker.mk j .joining off ps)
  rw [Worker.parts] at hlength
  have hat : (c.root.update (·.callOffFirst ps.length) a).at? a =
      some (.mk j .joining off (ps.map Worker.callOff)) := by
    rw [at?_update_self, ha, Option.map_some, hlength]
    rfl
  have hfit := hoff.fits a
  rw [head?, hat, Option.map_some] at hfit
  have hend := hoff.change (f := withStage (.ended o)) hat rfl hoff.sound (fun b _ => .refl _)
    (by rw [hfit.of_joining.2]; exact .ended)
  have hsame : (c.root.update (·.callOffFirst ps.length) a).update (withStage (.ended o)) a =
      c.root.update f a := by
    rw [update_update]
    refine update_congr ha ?_
    rw [hf, Function.comp, hlength]
    rfl
  rw [← hsame]
  exact hend

/-- A step keeps the order. -/
theorem Orderly.moves {limit : Option Nat} {c : Crew ν ε α} (h : c.Orderly limit) {a : Address}
    {w w' : Worker ν ε α} {f : Worker ν ε α → Worker ν ε α} {s : Slots Address}
    (ha : c.root.at? a = some w) (hf : f w = w')
    (hmove : Moves c.slots c.cancelsOnFailure a w w' s) :
    Orderly limit { c with root := c.root.update f a, slots := s } := by
  have hfit := h.fits a
  have honce := h.sound.once
  rw [head?, ha, Option.map_some] at hfit
  cases hmove with
  | withdraw =>
    refine h.change ha (by rw [hf]; rfl) h.sound (fun b _ => .refl _) ?_
    rw [hf, hfit.of_new.2]
    exact .ended
  | @breakOff j ps hin =>
    refine h.change ha (by rw [hf]; rfl) h.sound (fun b _ => .refl _) ?_
    rw [hf, Slots.claim_eq_inside_iff.mpr hin, head, hfit.of_leaving.1]
    exact .unwinding
  | stepOut hin =>
    refine h.change ha (by rw [hf]; rfl) (h.sound.takeUp a)
      (fun b hb => Slots.claim_takeUp_of_ne _ hb) ?_
    rw [hf]
    obtain hclaim | hclaim | hclaim := hfit.of_leaving.2
    · exact absurd (Slots.claim_eq_inside_iff.mp hclaim) hin
    · rw [Slots.claim_takeUp_calledOff hclaim]
      exact .ended
    · have hturn := (Slots.claim_eq_none_iff.mp hclaim).2
      rw [Slots.takeUp_eq_self (by simp [hturn]) (by simp [hturn]), hclaim]
      exact .ended
  | unwind =>
    have hin := Slots.claim_eq_inside_iff.mp hfit.of_unwinding.2.2
    refine h.change ha (by rw [hf]; rfl) (h.sound.leave a)
      (fun b hb => Slots.claim_leave_of_ne _ hb) ?_
    rw [hf, Slots.claim_leave_self honce hin]
    exact .ended
  | abandon => exact h.endJoin ha hf
  | begin =>
    have hparts := List.length_eq_zero_iff.mp hfit.of_new.1
    exact h.takenOn ha hf hparts rfl h.sound (fun b _ => .refl _) hfit.of_new.2
  | goOn hin =>
    have hparts := List.length_eq_zero_iff.mp hfit.of_operating.1
    exact h.takenOn ha hf hparts rfl (h.sound.leave a) (fun b hb => Slots.claim_leave_of_ne _ hb)
      (Slots.claim_leave_self honce hin)
  | takeUp hin howns =>
    refine h.change ha (by rw [hf]) (h.sound.takeUp a)
      (fun b hb => Slots.claim_takeUp_of_ne _ hb) ?_
    obtain ⟨hcount, ⟨notes, next, hjob⟩, hclaim⟩ := hfit.of_operating
    obtain hclaim | hclaim | hclaim := hclaim
    · exact absurd (Slots.claim_eq_inside_iff.mp hclaim) hin
    · exact absurd howns (Slots.not_mem_owners_of_waiting honce hclaim)
    · rw [hf, Slots.claim_takeUp_called hclaim, head, hcount]
      exact .operating (.inl rfl)
  | @conclude js combine ps hwait =>
    by_cases hcancels : c.cancelsOnFailure = true
    · rw [if_pos hcancels] at hf ⊢
      exact h.endJoin ha hf
    · rw [if_neg hcancels] at hf ⊢
      refine h.change ha (by rw [hf]; rfl) h.sound (fun b _ => .refl _) ?_
      rw [hf, hfit.of_joining.2]
      exact .ended

theorem Orderly.next {limit : Option Nat} {c next : Crew ν ε α} {a : Address}
    (h : c.Orderly limit) (hstep : c.step? a = some next) : next.Orderly limit := by
  obtain ⟨w, f, s, ha, rfl, hmove⟩ := moves_of_step? hstep
  exact h.moves ha rfl hmove

end Crew

end TypeAtlas.Concurrency
