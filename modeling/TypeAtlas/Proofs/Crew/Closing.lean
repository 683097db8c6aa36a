import TypeAtlas.Proofs.Crew.Orphans
import TypeAtlas.Proofs.Crew.Undisturbed

namespace TypeAtlas.Concurrency

variable {ν ε α : Type}

namespace Worker

/-- How the worker at an address has ended, if there is one and it has. -/
def outcomeAt? (w : Worker ν ε α) (a : Address) : Option (Option (Outcome ε α)) :=
  (w.at? a).map outcome?

def Head.outcome? (h : Head ν ε α) : Option (Outcome ε α) :=
  match h.stage with
  | .ended o => some o
  | _ => none

theorem outcome?_head (w : Worker ν ε α) : w.head.outcome? = w.outcome? := by
  cases w
  rfl

theorem map_outcome?_head? (w : Worker ν ε α) (a : Address) :
    (w.head? a).map Head.outcome? = w.outcomeAt? a := by
  rw [head?, outcomeAt?, Option.map_map]
  congr 1
  exact funext outcome?_head

theorem Head.outcome?_callOff (h : Head ν ε α) : h.callOff.outcome? = h.outcome? := by
  obtain ⟨job, stage, off, n⟩ := h
  cases stage <;> rfl

theorem Head.callOff_callOff (h : Head ν ε α) : h.callOff.callOff = h.callOff := by
  obtain ⟨job, stage, off, n⟩ := h
  cases stage <;> rfl

theorem Head.isCalledOff_callOff {h : Head ν ε α} (hopen : h.outcome? = none) :
    h.callOff.isCalledOff = true := by
  obtain ⟨job, stage, off, n⟩ := h
  cases stage with
  | ended o => cases hopen
  | new | operating | unwinding | joining => rfl

theorem callOff_eq_self {w : Worker ν ε α} (h : w.outcome? = none → w.isCalledOff = true) :
    w.callOff = w := by
  obtain ⟨job, stage, off, parts⟩ := w
  cases stage with
  | ended o => rfl
  | new | operating | unwinding | joining =>
    obtain rfl : off = true := h rfl
    rfl

theorem mem_addressesAmong {ps : List (Worker ν ε α)} {p : Worker ν ε α} {i : Nat}
    {above b : Address} (n : Nat) (hp : ps[i]? = some p)
    (hb : b ∈ p.addresses (above ++ [n + i])) : b ∈ addressesAmong above n ps := by
  induction ps generalizing i n with
  | nil => cases hp
  | cons q ps ih =>
    rw [addressesAmong, List.mem_append]
    cases i with
    | zero =>
      obtain rfl := Option.some.inj hp
      exact .inl hb
    | succ i =>
      rw [← Nat.add_assoc, Nat.add_right_comm] at hb
      exact .inr (ih (n + 1) hp hb)

/-- All workers are among the addresses. -/
theorem mem_addresses {w x : Worker ν ε α} {a : Address} (ha : w.at? a = some x)
    (here : Address) : here ++ a ∈ w.addresses here := by
  induction a generalizing w here with
  | nil =>
    obtain ⟨job, stage, off, parts⟩ := w
    rw [addresses, List.append_nil]
    exact List.mem_cons_self
  | cons i rest ih =>
    obtain ⟨p, hp, hrest⟩ := Option.bind_eq_some_iff.mp ha
    obtain ⟨job, stage, off, parts⟩ := w
    rw [addresses]
    refine List.mem_cons_of_mem _ (mem_addressesAmong 0 hp ?_)
    have hbelow := ih hrest (here ++ [i])
    rw [List.append_assoc, List.singleton_append] at hbelow
    rwa [Nat.zero_add]

end Worker

namespace Moves

variable {s next : Slots Address} {cancels : Bool} {a : Address} {w w' : Worker ν ε α}

theorem outcome?_eq_none (h : Moves s cancels a w w' next) : w.outcome? = none := by
  cases h <;> rfl

/-- Someone who has been told to give up, like all their parts, can only do so. -/
theorem exists_withStage (h : Moves s cancels a w w' next) (hoff : w.isCalledOff = true)
    (hparts : ∀ p ∈ w.parts, p.callOff = p) :
    ∃ stage, (stage = .unwinding ∨ stage = .ended .cancelled) ∧ w' = w.withStage stage := by
  cases h with
  | withdraw => exact ⟨_, .inr rfl, rfl⟩
  | breakOff _ => exact ⟨_, .inl rfl, rfl⟩
  | stepOut _ => exact ⟨_, .inr rfl, rfl⟩
  | unwind => exact ⟨_, .inr rfl, rfl⟩
  | @abandon j ps =>
    have hsame : ps.map Worker.callOff = ps :=
      (List.map_congr_left hparts).trans (List.map_id ps)
    exact ⟨_, .inr rfl, congrArg (Worker.mk j (.ended .cancelled) true) hsame⟩
  | begin => cases hoff
  | goOn _ => cases hoff
  | takeUp _ _ => cases hoff
  | conclude _ => cases hoff

end Moves

namespace Crew

open Worker

variable {c s t : Crew ν ε α}

/-- Nobody is left who has not been told to give up. -/
def IsClosing (c : Crew ν ε α) : Prop :=
  ∀ a h, c.root.head? a = some h → h.outcome? = none → h.isCalledOff = true

/-- Some of those who are left have given up, and that is all that has happened. -/
def WindsUpTo (s t : Crew ν ε α) : Prop :=
  ∀ a, t.root.outcomeAt? a = s.root.outcomeAt? a ∨
    s.root.outcomeAt? a = some none ∧ t.root.outcomeAt? a = some (some .cancelled)

/-- The crew `c` has gone on as `s` when its first worker has ended. Then all who are left are told
to give up, and when nobody can go on any more the crew has become `t`. -/
structure ClosesTo (c s t : Crew ν ε α) : Prop where
  before : ∃ schedule, s = c.run schedule
  ended : s.root.outcome? ≠ none
  after : ∃ schedule, t = s.close.run schedule
  stuck : t.IsStuck

theorem WindsUpTo.refl (c : Crew ν ε α) : c.WindsUpTo c :=
  fun _ => .inl rfl

theorem WindsUpTo.trans {u : Crew ν ε α} (h : s.WindsUpTo t) (h' : t.WindsUpTo u) :
    s.WindsUpTo u := by
  intro a
  obtain hsame | ⟨hleft, hgone⟩ := h a
  · rw [← hsame]
    exact h' a
  · obtain hsame | ⟨hleft', -⟩ := h' a
    · exact .inr ⟨hleft, hsame.trans hgone⟩
    · rw [hgone] at hleft'
      cases hleft'

theorem head?_callOff (c : Crew ν ε α) (a b : Address) :
    (c.callOff a).root.head? b =
      if b = a then (c.root.head? b).map Head.callOff else c.root.head? b := by
  rw [callOff, update]
  cases ha : c.root.at? a with
  | none =>
    rw [update_of_absent ha]
    split
    · rename_i hb
      rw [hb, head?, ha]
      rfl
    · rfl
  | some w =>
    split
    · rename_i hb
      rw [hb, head?_update_self ha, head_callOff, head?, ha]
      rfl
    · rename_i hb
      exact head?_update_of_ne ha (parts_callOff w) hb

theorem head?_foldl_callOff (as : List Address) (c : Crew ν ε α) (b : Address) :
    (as.foldl callOff c).root.head? b =
      if b ∈ as then (c.root.head? b).map Head.callOff else c.root.head? b := by
  induction as generalizing c with
  | nil => simp
  | cons a as ih =>
    have htwice : Head.callOff ∘ Head.callOff = (Head.callOff : Head ν ε α → Head ν ε α) :=
      funext Head.callOff_callOff
    rw [List.foldl_cons, ih, head?_callOff]
    by_cases hb : b = a
    · subst hb
      rw [if_pos rfl, if_pos List.mem_cons_self, Option.map_map, htwice, ite_self]
    · simp only [if_neg hb, List.mem_cons, or_iff_right hb]

/-- Closing is to tell everyone to give up. -/
theorem head?_close (c : Crew ν ε α) (a : Address) :
    c.close.root.head? a = (c.root.head? a).map Head.callOff := by
  rw [close, head?_foldl_callOff]
  split
  · rfl
  · rename_i hmem
    cases ha : c.root.at? a with
    | none =>
      rw [head?, ha]
      rfl
    | some w => exact absurd (mem_addresses ha []) hmem

theorem isClosing_close (c : Crew ν ε α) : c.close.IsClosing := by
  intro a h hh hopen
  rw [head?_close] at hh
  obtain ⟨k, -, rfl⟩ := Option.map_eq_some_iff.mp hh
  rw [Head.outcome?_callOff] at hopen
  exact Head.isCalledOff_callOff hopen

theorem outcomeAt?_close (c : Crew ν ε α) (a : Address) :
    c.close.root.outcomeAt? a = c.root.outcomeAt? a := by
  rw [← map_outcome?_head?, ← map_outcome?_head?, head?_close, Option.map_map]
  congr 1
  exact funext Head.outcome?_callOff

/-- In a crew that closes, a step is that one of those who are left gives up. -/
theorem IsClosing.step {a : Address} (h : c.IsClosing) (hstep : c.step? a = some t) :
    ∃ w stage, c.root.at? a = some w ∧ w.outcome? = none ∧ w.isCalledOff = true ∧
      (stage = .unwinding ∨ stage = .ended .cancelled) ∧
      ∀ b, t.root.head? b =
        if b = a then some (w.withStage stage).head else c.root.head? b := by
  obtain ⟨w, f, slots, ha, rfl, hmove⟩ := moves_of_step? hstep
  have hopen := hmove.outcome?_eq_none
  have hhead : c.root.head? a = some w.head := by rw [head?, ha]; rfl
  have hoff : w.isCalledOff = true := by
    have hcalled := h a w.head hhead (by rw [outcome?_head, hopen])
    cases w
    exact hcalled
  have hparts : ∀ p ∈ w.parts, p.callOff = p := by
    intro p hp
    obtain ⟨i, hi⟩ := List.getElem?_of_mem hp
    have hpart : c.root.head? (a ++ [i]) = some p.head := by
      rw [head?, at?_append, ha, Option.bind_some, at?_cons, hi]
      rfl
    refine callOff_eq_self fun hnone => ?_
    have hcalled := h _ _ hpart (by rw [outcome?_head, hnone])
    cases p
    exact hcalled
  obtain ⟨stage, hstage, hf⟩ := hmove.exists_withStage hoff hparts
  refine ⟨w, stage, ha, hopen, hoff, hstage, fun b => ?_⟩
  split
  · rename_i hb
    rw [hb, head?_update_self ha, hf]
  · rename_i hb
    refine head?_update_of_ne ha ?_ hb
    rw [hf]
    cases w
    rfl

theorem IsClosing.next {a : Address} (h : c.IsClosing) (hstep : c.step? a = some t) :
    t.IsClosing ∧ c.WindsUpTo t := by
  obtain ⟨w, stage, ha, hopen, hoff, hstage, hheads⟩ := h.step hstep
  refine ⟨fun b k hk hnone => ?_, fun b => ?_⟩
  · rw [hheads] at hk
    split at hk
    · obtain rfl := Option.some.inj hk
      cases w
      exact hoff
    · exact h b k hk hnone
  · rw [← map_outcome?_head?, ← map_outcome?_head?, hheads]
    split
    · rename_i hb
      have hleft : (c.root.head? b).map Head.outcome? = some none := by
        rw [map_outcome?_head?, hb, outcomeAt?, ha, Option.map_some, hopen]
      rw [hleft]
      obtain rfl | rfl := hstage <;> cases w
      · exact .inl rfl
      · exact .inr ⟨rfl, rfl⟩
    · exact .inl rfl

theorem IsClosing.run (h : c.IsClosing) (schedule : List Address) :
    c.WindsUpTo (c.run schedule) := by
  suffices hrun : (c.run schedule).IsClosing ∧ c.WindsUpTo (c.run schedule) from hrun.2
  refine run_induction (motive := fun s => s.IsClosing ∧ c.WindsUpTo s) ⟨h, .refl c⟩
    (fun s next a hs hstep => ?_) schedule
  obtain ⟨hclosing, hwinds⟩ := hs
  obtain ⟨hnext, hmore⟩ := hclosing.next hstep
  exact ⟨hnext, hwinds.trans hmore⟩

/-- A crew can go on until nobody can any more. -/
theorem Orderly.exists_isStuck_run {limit : Option Nat} (h : c.Orderly limit) :
    ∃ schedule, (c.run schedule).IsStuck := by
  induction hn : c.stepsLeft using Nat.strongRecOn generalizing c with
  | ind n ih =>
    by_cases hstuck : c.IsStuck
    · exact ⟨[], hstuck⟩
    · obtain ⟨a, ha⟩ := Classical.not_forall.mp hstuck
      obtain ⟨next, hstep⟩ := Option.ne_none_iff_exists'.mp ha
      have hless := stepsLeft_lt_of_step? h.sound.once hstep
      obtain ⟨schedule, hrest⟩ := ih next.stepsLeft (hn ▸ hless) (h.next hstep) rfl
      refine ⟨a :: schedule, ?_⟩
      have hrun : c.run (a :: schedule) = ((c.step? a).getD c).run schedule := rfl
      rw [hrun, hstep]
      exact hrest

theorem Reachable.close (h : Reachable c s) : Reachable c s.close := by
  unfold Crew.close
  generalize s.root.addresses [] = as
  induction as generalizing s with
  | nil => exact h
  | cons a as ih => exact ih (h.callOff a)

theorem ClosesTo.reachable (h : c.ClosesTo s t) : Reachable c s ∧ Reachable c t := by
  obtain ⟨⟨before, rfl⟩, -, ⟨after, rfl⟩, -⟩ := h
  have hs : Reachable c (c.run before) := Reachable.refl.run before
  exact ⟨hs, hs.close.run after⟩

theorem ClosesTo.windsUpTo (h : c.ClosesTo s t) : s.WindsUpTo t := by
  obtain ⟨-, -, ⟨after, rfl⟩, -⟩ := h
  have hwinds := s.isClosing_close.run after
  intro a
  have ha := hwinds a
  rwa [outcomeAt?_close] at ha

/-- Nobody gives up, however a crew has gone on when its first worker has ended and it is closed. -/
def LetsAllFinish (c : Crew ν ε α) : Prop :=
  ∀ s t, c.ClosesTo s t → ∀ a, t.root.outcomeAt? a ≠ some (some .cancelled)

/-- Nobody in a crew is disturbed until the first worker has ended. When those who are left are told
to give up then, that is what becomes of them, and of nobody else. So somebody gives up exactly if
somebody was left, though nobody is to give up for the failure of others. -/
structure IsPatient (limit : Option Nat) (c : Crew ν ε α) : Prop where
  undisturbed : ∀ schedule a w, (c.run schedule).root.at? a = some w →
    w.isCalledOff = false ∧ w.outcome? ≠ some .cancelled
  ends : ∃ schedule, (c.run schedule).root.outcome? ≠ none
  closes : ∀ schedule, (c.run schedule).root.outcome? ≠ none →
    ∃ t, c.ClosesTo (c.run schedule) t
  outcomes : ∀ s t, c.ClosesTo s t → ∀ a,
    t.root.outcomeAt? a = (s.root.outcomeAt? a).map fun o => some (o.getD .cancelled)
  slots : ∀ s t, c.ClosesTo s t → t.slots = .ofLimit limit
  finishes_iff : ∀ s t, c.ClosesTo s t →
    ((∀ a, t.root.outcomeAt? a ≠ some (some .cancelled)) ↔
      ∀ a, s.root.outcomeAt? a ≠ some none)

/-- What everyone has come to when nobody can go on. -/
theorem outcomeAt?_of_closesTo {limit : Option Nat} (hc : c.LeavesNoOrphans limit)
    (h : c.ClosesTo s t) (a : Address) :
    t.root.outcomeAt? a = (s.root.outcomeAt? a).map fun o => some (o.getD .cancelled) := by
  have hended := (hc.finished t h.reachable.2 h.stuck).1 a
  obtain hsame | ⟨hleft, hgone⟩ := h.windsUpTo a
  · rw [← hsame, outcomeAt?]
    cases ha : t.root.at? a with
    | none => rfl
    | some w =>
      obtain ⟨o, ho⟩ := Option.ne_none_iff_exists'.mp (hended w ha)
      rw [Option.map_some, ho]
      rfl
  · rw [hgone, hleft]
    rfl

theorem isPatient_start {limit : Option Nat} (hlimit : limit ≠ some 0) (j : Job ν ε α) :
    (start j limit false).IsPatient limit := by
  have horphans := leavesNoOrphans_start hlimit j false
  have horder := orderly_start j limit false
  have hundisturbed (schedule : List Address) :
      ((start j limit false).run schedule).root.Undisturbed :=
    undisturbed_run rfl (undisturbed_ofJob j) schedule
  have houtcomes {s t : Crew ν ε α} (h : (start j limit false).ClosesTo s t) :=
    outcomeAt?_of_closesTo horphans h
  refine {
    undisturbed := fun schedule a w ha =>
      ⟨((hundisturbed schedule).at? ha).isCalledOff, ((hundisturbed schedule).at? ha).outcome?_ne⟩
    ends := ?_
    closes := fun schedule hended => ?_
    outcomes := fun s t h => houtcomes h
    slots := fun s t h => (horphans.finished t h.reachable.2 h.stuck).2
    finishes_iff := fun s t h => ?_ }
  · obtain ⟨schedule, hstuck⟩ := horder.exists_isStuck_run
    exact ⟨schedule, (horphans.finished _ (Reachable.refl.run schedule) hstuck).1 [] _ rfl⟩
  · have hclosed := (Reachable.refl (c := start j limit false)).run schedule |>.close
    obtain ⟨after, hstuck⟩ := (horder.reachable hclosed).exists_isStuck_run
    exact ⟨_, ⟨schedule, rfl⟩, hended, ⟨after, rfl⟩, hstuck⟩
  · obtain ⟨schedule, rfl⟩ := h.before
    refine ⟨fun hnobody a hleft => hnobody a ?_, fun hnobody a hgone => ?_⟩
    · rw [houtcomes h, hleft]
      rfl
    · rw [houtcomes h] at hgone
      obtain ⟨o, ho, hcancelled⟩ := Option.map_eq_some_iff.mp hgone
      cases o with
      | none => exact hnobody a ho
      | some o =>
        -- Before the closing nobody had given up.
        obtain rfl : o = .cancelled := Option.some.inj hcancelled
        obtain ⟨w, ha, hw⟩ := Option.map_eq_some_iff.mp ho
        exact ((hundisturbed schedule).at? ha).outcome?_ne hw

end Crew

end TypeAtlas.Concurrency
