import TypeAtlas.Proofs.Crew.Outcomes
import TypeAtlas.Proofs.Crew.Progress

namespace TypeAtlas.Concurrency

variable {ν ε α : Type}

namespace Worker

/-- A worker that has ended has left no part behind: each part has ended too, or has been told to
give up. Only a join that calls nobody off for a failure, and was not told to give up itself, may
have left parts alone, and then one of the others has failed. -/
def HasSettledParts (cancels : Bool) (w : Worker ν ε α) : Prop :=
  w.outcome? ≠ none → ∀ p ∈ w.parts, p.outcome? = none →
    p.isCalledOff = true ∨
      cancels = false ∧ w.isCalledOff = false ∧
        ∃ q ∈ w.parts, ∃ e, q.outcome? = some (.failure e)

/-- No worker in the tree has left a part behind. -/
inductive Settled (cancels : Bool) : Worker ν ε α → Prop
  | intro {w : Worker ν ε α} :
      w.HasSettledParts cancels → (∀ p ∈ w.parts, Settled cancels p) → Settled cancels w

/-- All that the one above a worker relies on: its end and a call to give up are for good. -/
structure GoesOnTo (w w' : Worker ν ε α) : Prop where
  outcome : ∀ o, w.outcome? = some o → w'.outcome? = some o
  calledOff : w.isCalledOff = true → w'.isCalledOff = true

variable {cancels : Bool}

theorem outcome?_callOff (w : Worker ν ε α) : w.callOff.outcome? = w.outcome? := by
  obtain ⟨job, stage, off, parts⟩ := w
  cases stage <;> rfl

theorem isCalledOff_callOff {w : Worker ν ε α} (h : w.outcome? = none) :
    w.callOff.isCalledOff = true := by
  obtain ⟨job, stage, off, parts⟩ := w
  cases stage with
  | ended o => cases h
  | new | operating | unwinding | joining => rfl

theorem goesOnTo_callOff (w : Worker ν ε α) : w.GoesOnTo w.callOff where
  outcome o h := (outcome?_callOff w).trans h
  calledOff h := by
    obtain ⟨job, stage, off, parts⟩ := w
    obtain rfl : off = true := h
    cases stage <;> rfl

theorem Settled.of_unended {w : Worker ν ε α} (h : w.outcome? = none)
    (hparts : ∀ p ∈ w.parts, Settled cancels p) : Settled cancels w :=
  .intro (fun hended => absurd h hended) hparts

theorem Settled.of_leaf {w : Worker ν ε α} (h : w.parts = []) : Settled cancels w := by
  refine .intro (fun _ p hp => ?_) fun p hp => ?_
  · rw [h] at hp
    cases hp
  · rw [h] at hp
    cases hp

theorem Settled.parts {w : Worker ν ε α} (h : Settled cancels w) :
    ∀ p ∈ w.parts, Settled cancels p := by
  cases h with
  | intro _ hparts => exact hparts

theorem Settled.callOff {w : Worker ν ε α} (h : Settled cancels w) : Settled cancels w.callOff := by
  cases hw : w.outcome? with
  | none =>
    refine .of_unended ((outcome?_callOff w).trans hw) ?_
    rw [parts_callOff]
    exact h.parts
  | some o =>
    obtain ⟨job, stage, off, parts⟩ := w
    cases stage with
    | ended o => exact h
    | new | operating | unwinding | joining => cases hw

/-- Parts that have all been told to give up are not left behind. -/
theorem Settled.end_callOff {j k : Job ν ε α} {stage : Stage ε α} {o : Outcome ε α}
    {off off' : Bool} {ps : List (Worker ν ε α)} (h : Settled cancels (.mk j stage off ps)) :
    Settled cancels (.mk k (.ended o) off' (ps.map Worker.callOff)) := by
  refine .intro (fun _ p hp hnone => .inl ?_) fun p hp => ?_
  · obtain ⟨q, _, rfl⟩ := List.mem_map.mp hp
    rw [outcome?_callOff] at hnone
    exact isCalledOff_callOff hnone
  · obtain ⟨q, hq, rfl⟩ := List.mem_map.mp hp
    exact (h.parts q hq).callOff

/-- A worker that comes to a job has left nobody behind, for the job is still to be begun. -/
theorem settled_takenOn (j : Job ν ε α) {w : Worker ν ε α} (h : w.parts = []) :
    Settled cancels (w.takenOn j) := by
  obtain ⟨job, stage, off, ps⟩ := w
  obtain rfl : ps = [] := h
  cases j with
  | done v => exact .of_leaf rfl
  | fail e => exact .of_leaf rfl
  | operation notes next => exact .of_leaf rfl
  | join parts combine =>
    cases parts with
    | nil => exact .of_leaf rfl
    | cons part rest =>
      refine .of_unended rfl fun p hp => ?_
      obtain ⟨k, _, rfl⟩ := List.mem_map.mp hp
      exact .of_leaf rfl

/-- A worker goes on to what a step makes of it, and leaves no part behind. -/
theorem Settled.moves {s next : Slots Address} {a : Address} {w w' : Worker ν ε α}
    {claim : Claim} (h : Settled cancels w) (hfit : Fits (some w.head) claim)
    (hmove : Moves s cancels a w w' next) : Settled cancels w' ∧ w.GoesOnTo w' := by
  cases hmove with
  | withdraw =>
    have hparts := List.length_eq_zero_iff.mp hfit.of_new.1
    exact ⟨.of_leaf hparts, nofun, fun h => h⟩
  | breakOff _ => exact ⟨.of_unended rfl h.parts, nofun, fun h => h⟩
  | stepOut _ =>
    have hparts := List.length_eq_zero_iff.mp hfit.of_leaving.1
    exact ⟨.of_leaf hparts, nofun, fun h => h⟩
  | unwind =>
    have hparts := List.length_eq_zero_iff.mp hfit.of_unwinding.1
    exact ⟨.of_leaf hparts, nofun, fun h => h⟩
  | abandon => exact ⟨h.end_callOff, nofun, fun h => h⟩
  | begin =>
    have hparts := List.length_eq_zero_iff.mp hfit.of_new.1
    exact ⟨settled_takenOn _ hparts, nofun, nofun⟩
  | goOn _ =>
    have hparts := List.length_eq_zero_iff.mp hfit.of_operating.1
    exact ⟨settled_takenOn _ hparts, nofun, nofun⟩
  | takeUp _ _ => exact ⟨h, fun _ ho => ho, fun h => h⟩
  | @conclude js combine ps hwait =>
    cases cancels with
    | true => exact ⟨h.end_callOff, nofun, nofun⟩
    | false =>
      refine ⟨.intro (fun _ p hp hnone => .inr ⟨rfl, rfl, ?_⟩) h.parts, nofun, nofun⟩
      -- The wait is over although `p` has not ended, so a part has failed.
      rw [Outcome.endWait, Bool.or_eq_true] at hwait
      rcases hwait with hall | hany
      · have hsome := List.all_eq_true.mp hall _ (List.mem_map_of_mem hp)
        rw [hnone] at hsome
        cases hsome
      · obtain ⟨o, ho, hfailure⟩ := List.any_eq_true.mp hany
        obtain ⟨q, hq, rfl⟩ := List.mem_map.mp ho
        refine ⟨q, hq, ?_⟩
        cases hoq : q.outcome? with
        | none => simp [hoq] at hfailure
        | some o =>
          cases o with
          | failure e => exact ⟨e, rfl⟩
          | value v => simp [hoq, Outcome.isFailure] at hfailure
          | cancelled => simp [hoq, Outcome.isFailure] at hfailure

/-- That a part goes on leaves the worker above it without debts to its parts. -/
theorem HasSettledParts.update {w p : Worker ν ε α} {f : Worker ν ε α → Worker ν ε α} {i : Nat}
    {rest : Address} (h : w.HasSettledParts cancels) (hp : w.parts[i]? = some p)
    (hf : p.GoesOnTo (p.update f rest)) : (w.update f (i :: rest)).HasSettledParts cancels := by
  obtain ⟨job, stage, off, ps⟩ := w
  rw [Worker.parts] at hp
  intro hended q hq hnone
  have hkeeps : ∀ r ∈ ps, ∃ r' ∈ ps.modify i fun p => p.update f rest, r.GoesOnTo r' := by
    intro r hr
    obtain ⟨n, hn⟩ := List.getElem?_of_mem hr
    by_cases hin : i = n
    · subst hin
      obtain rfl := Option.some.inj (hp.symm.trans hn)
      refine ⟨_, List.mem_of_getElem? (i := i) ?_, hf⟩
      rw [List.getElem?_modify_eq, hp]
      rfl
    · refine ⟨r, List.mem_of_getElem? (i := n) ?_, ⟨fun _ ho => ho, fun h => h⟩⟩
      rw [List.getElem?_modify_ne _ _ hin, hn]
  have hold : ∃ r ∈ ps, r.outcome? = none ∧ r.GoesOnTo q := by
    rcases mem_or_eq_of_mem_modify hq with hmem | ⟨r, hr, rfl⟩
    · exact ⟨q, hmem, hnone, fun _ ho => ho, fun h => h⟩
    · obtain rfl := Option.some.inj (hp.symm.trans hr)
      refine ⟨p, List.mem_of_getElem? hp, ?_, hf⟩
      cases ho : p.outcome? with
      | none => rfl
      | some o => exact absurd ((hf.outcome o ho).symm.trans hnone) (by simp)
  obtain ⟨r, hr, hrnone, hrq⟩ := hold
  rcases h hended r hr hrnone with hoff | ⟨hcancels, hoff, failed, hfailed, e, he⟩
  · exact .inl (hrq.calledOff hoff)
  · obtain ⟨failed', hmem, hgoes⟩ := hkeeps failed hfailed
    exact .inr ⟨hcancels, hoff, failed', hmem, e, hgoes.outcome _ he⟩

/-- Where one worker goes on, nobody above it has left a part behind. -/
theorem Settled.update {w x : Worker ν ε α} {f : Worker ν ε α → Worker ν ε α} {a : Address}
    (h : Settled cancels w) (ha : w.at? a = some x)
    (hf : Settled cancels x → Settled cancels (f x) ∧ x.GoesOnTo (f x)) :
    Settled cancels (w.update f a) ∧ w.GoesOnTo (w.update f a) := by
  induction a generalizing w with
  | nil =>
    obtain rfl := Option.some.inj ha
    exact hf h
  | cons i rest ih =>
    obtain ⟨p, hp, hrest⟩ := Option.bind_eq_some_iff.mp ha
    cases h with
    | intro hown hparts =>
      obtain ⟨hsettled, hgoes⟩ := ih (hparts p (List.mem_of_getElem? hp)) hrest
      refine ⟨.intro (hown.update hp hgoes) fun q hq => ?_, ?_⟩
      · rw [parts_update_cons] at hq
        rcases mem_or_eq_of_mem_modify hq with hmem | ⟨r, hr, rfl⟩
        · exact hparts q hmem
        · obtain rfl := Option.some.inj (hp.symm.trans hr)
          exact hsettled
      · obtain ⟨job, stage, off, ps⟩ := w
        exact ⟨fun _ ho => ho, fun h => h⟩

/-- On the way from a worker that has ended down to one that has not, there is a last one that has
ended. -/
theorem Settled.exists_last_ended {w x : Worker ν ε α} {a : Address} (h : Settled cancels w)
    (hended : w.outcome? ≠ none) (ha : w.at? a = some x) (hx : x.outcome? = none) :
    ∃ b i rest y z, a = b ++ i :: rest ∧ w.at? b = some y ∧ y.outcome? ≠ none ∧
      y.HasSettledParts cancels ∧ y.parts[i]? = some z ∧ z.outcome? = none := by
  induction a generalizing w with
  | nil =>
    obtain rfl := Option.some.inj ha
    exact absurd hx hended
  | cons i rest ih =>
    obtain ⟨p, hp, hrest⟩ := Option.bind_eq_some_iff.mp ha
    cases h with
    | intro hown hparts =>
      by_cases hpnone : p.outcome? = none
      · exact ⟨[], i, rest, w, p, rfl, rfl, hended, hown, hp, hpnone⟩
      · obtain ⟨b, k, below, y, z, rfl, hy, hrest⟩ :=
          ih (hparts p (List.mem_of_getElem? hp)) hpnone hrest
        refine ⟨i :: b, k, below, y, z, rfl, ?_, hrest⟩
        rw [at?_cons, hp]
        exact hy

end Worker

namespace Slots

/-- Slots to which nobody has a claim are all free. -/
theorem Sound.eq_ofLimit {limit : Option Nat} {s : Slots Address} (h : s.Sound limit)
    (hnobody : ∀ a, s.claim a = .none) : s = .ofLimit limit := by
  have hinside : s.inside = [] := List.eq_nil_iff_forall_not_mem.mpr fun a ha => by
    have hclaim := hnobody a
    rw [claim_eq_inside_iff.mpr ha] at hclaim
    cases hclaim
  have hline : s.line = [] := List.eq_nil_iff_forall_not_mem.mpr fun ⟨a, turn⟩ hentry => by
    have hturn := (claim_eq_none_iff.mp (hnobody a)).2
    rw [turn?_of_mem h.once.line hentry] at hturn
    cases hturn
  have htotal := h.total
  obtain ⟨free, inside, line⟩ := s
  obtain rfl : inside = [] := hinside
  obtain rfl : line = [] := hline
  obtain rfl : free = limit := by
    rw [← htotal]
    simp
  rfl

end Slots

namespace Crew

/-- The worker at `a` has been told to give up, or waits below a join that has been told to and has
not yet done so. -/
def IsToldToGiveUp (c : Crew ν ε α) (a : Address) : Prop :=
  ∃ b w, b <+: a ∧ c.root.at? b = some w ∧ w.isCalledOff = true ∧ (b = a ∨ w.stage = .joining)

/-- The worker at `a` is below a join, not the first worker, that ended with the failure of a part
and nobody had told to give up. -/
def IsBelowFailure (c : Crew ν ε α) (a : Address) : Prop :=
  ∃ b w, b ≠ [] ∧ b <+: a ∧ b ≠ a ∧ c.root.at? b = some w ∧ w.outcome? ≠ none ∧
    w.isCalledOff = false ∧ ∃ p ∈ w.parts, ∃ e, p.outcome? = some (.failure e)

/-- However a crew has gone on, once the first worker has ended, because it was told to or in a crew
that gives up on a failure, everyone left has been told to give up; but where nobody is to give up
for the failure of others, those others may be left to finish. When nobody can go on, all have ended
and all slots are free. -/
structure LeavesNoOrphans (limit : Option Nat) (c : Crew ν ε α) : Prop where
  told : ∀ s, Reachable c s → s.root.outcome? ≠ none →
    s.root.isCalledOff = true ∨ c.cancelsOnFailure = true →
      ∀ a w, s.root.at? a = some w → w.outcome? = none →
        s.IsToldToGiveUp a ∨ c.cancelsOnFailure = false ∧ s.IsBelowFailure a
  finished : ∀ s, Reachable c s → s.IsStuck →
    (∀ a w, s.root.at? a = some w → w.outcome? ≠ none) ∧ s.slots = .ofLimit limit

theorem settled_reachable {limit : Option Nat} {c s : Crew ν ε α} (h : c.Orderly limit)
    (hc : c.root.Settled c.cancelsOnFailure) (hs : Reachable c s) :
    s.root.Settled c.cancelsOnFailure ∧ s.cancelsOnFailure = c.cancelsOnFailure := by
  induction hs with
  | refl => exact ⟨hc, rfl⟩
  | @step s next a hreach hstep ih =>
    obtain ⟨hsettled, hcancels⟩ := ih
    obtain ⟨w, f, slots, ha, rfl, hmove⟩ := moves_of_step? hstep
    have hfit := (h.reachable hreach).fits a
    rw [Worker.head?, ha, Option.map_some] at hfit
    rw [hcancels] at hmove
    exact ⟨(hsettled.update ha fun hw => hw.moves hfit hmove).1, hcancels⟩
  | @callOff s a _ ih =>
    obtain ⟨hsettled, hcancels⟩ := ih
    refine ⟨?_, hcancels⟩
    cases ha : s.root.at? a with
    | none =>
      rw [callOff, update, Worker.update_of_absent ha]
      exact hsettled
    | some w =>
      exact (hsettled.update ha fun hw => ⟨hw.callOff, Worker.goesOnTo_callOff w⟩).1

/-- A worker that has not ended and has parts waits for them. -/
theorem Orderly.joining_of_parts {limit : Option Nat} {c : Crew ν ε α} (h : c.Orderly limit)
    {a : Address} {w p : Worker ν ε α} {i : Nat} (ha : c.root.at? a = some w)
    (hw : w.outcome? = none) (hp : w.parts[i]? = some p) : w.stage = .joining := by
  have hfit := h.fits a
  rw [Worker.head?, ha, Option.map_some] at hfit
  obtain ⟨j, stage, off, ps⟩ := w
  have hpos : ps.length ≠ 0 := by
    rintro hzero
    rw [Worker.parts, List.length_eq_zero_iff.mp hzero] at hp
    cases hp
  cases stage with
  | joining => rfl
  | ended o => cases hw
  | new => exact absurd hfit.of_new.1 hpos
  | unwinding => exact absurd hfit.of_unwinding.1 hpos
  | operating =>
    cases off with
    | true => exact absurd hfit.of_leaving.1 hpos
    | false => exact absurd hfit.of_operating.1 hpos

theorem leavesNoOrphans_start {limit : Option Nat} (hlimit : limit ≠ some 0) (j : Job ν ε α)
    (cancels : Bool) : (start j limit cancels).LeavesNoOrphans limit where
  told s hs hended hcause a w ha hw := by
    have horder := (orderly_start j limit cancels).reachable hs
    obtain ⟨hsettled, _⟩ := settled_reachable (orderly_start j limit cancels) (.of_leaf rfl) hs
    obtain ⟨b, i, rest, y, z, rfl, hy, hyended, hparts, hz, hznone⟩ :=
      hsettled.exists_last_ended hended ha hw
    have hzat : s.root.at? (b ++ [i]) = some z := by
      rw [Worker.at?_append, hy, Option.bind_some, Worker.at?_cons, hz]
      rfl
    have hstart : b ++ [i] <+: b ++ i :: rest := ⟨rest, by simp⟩
    rcases hparts hyended z (List.mem_of_getElem? hz) hznone with hoff | ⟨hcancels, hoff, hfailed⟩
    · refine .inl ⟨b ++ [i], z, hstart, hzat, hoff, ?_⟩
      cases rest with
      | nil => exact .inl rfl
      | cons k below =>
        have hsplit : b ++ i :: k :: below = (b ++ [i]) ++ k :: below := by simp
        rw [hsplit, Worker.at?_append, hzat, Option.bind_some, Worker.at?_cons] at ha
        obtain ⟨p, hp, _⟩ := Option.bind_eq_some_iff.mp ha
        exact .inr (horder.joining_of_parts hzat hznone hp)
    · refine .inr ⟨hcancels, b, y, ?_, List.prefix_append b _, by simp, hy, hyended, hoff, hfailed⟩
      rintro rfl
      obtain rfl := Option.some.inj hy
      rcases hcause with hroot | hall
      · rw [hroot] at hoff
        cases hoff
      · rw [hall] at hcancels
        cases hcancels
  finished s hs hstuck := by
    have horder := (orderly_start j limit cancels).reachable hs
    have hended : ∀ a w, s.root.at? a = some w → w.outcome? ≠ none := by
      intro a w ha hnone
      obtain ⟨b, next, hstep⟩ := horder.exists_step_of_unended hlimit ha hnone
      rw [hstuck b] at hstep
      cases hstep
    refine ⟨hended, horder.sound.eq_ofLimit fun a => ?_⟩
    have hfit := horder.fits a
    cases ha : s.root.at? a with
    | none =>
      rw [Worker.head?, ha] at hfit
      exact hfit.of_nobody
    | some w =>
      rw [Worker.head?, ha, Option.map_some] at hfit
      have hw := hended a w ha
      obtain ⟨job, stage, off, ps⟩ := w
      cases stage with
      | ended o => exact hfit.of_ended
      | new | operating | unwinding | joining => exact absurd rfl hw

end Crew

end TypeAtlas.Concurrency
