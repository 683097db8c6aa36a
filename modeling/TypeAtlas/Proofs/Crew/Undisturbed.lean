import TypeAtlas.Proofs.Crew.Outcomes

namespace TypeAtlas.Concurrency

variable {ν ε α : Type}

/-- Parts of which none has given up do not make a join do so. -/
theorem Outcome.verdict_ne_cancelled {β : Type} (combine : List α → Except ε β)
    {outcomes : List (Option (Outcome ε α))} (h : some .cancelled ∉ outcomes) :
    Outcome.verdict combine outcomes ≠ .cancelled := by
  intro hcancelled
  unfold Outcome.verdict at hcancelled
  split at hcancelled
  · rename_i fault hfault
    obtain ⟨o, ho, hbind⟩ := List.exists_of_findSome?_eq_some hfault
    obtain ⟨p, rfl, hp⟩ := Option.bind_eq_some_iff.mp hbind
    cases p with
    | value v => cases hp
    | failure e =>
      obtain rfl := Option.some.inj hp
      cases hcancelled
    | cancelled => exact h ho
  · unfold Outcome.ofExcept at hcancelled
    split at hcancelled <;> cases hcancelled

namespace Worker

/-- Nobody in the tree has been told to give up, and nobody has given up. -/
inductive Undisturbed : Worker ν ε α → Prop
  | intro {w : Worker ν ε α} :
      w.isCalledOff = false → w.outcome? ≠ some .cancelled →
        (∀ p ∈ w.parts, Undisturbed p) → Undisturbed w

theorem undisturbed_ofJob (j : Job ν ε α) : Undisturbed (.ofJob j : Worker ν ε α) :=
  .intro rfl nofun nofun

theorem Undisturbed.isCalledOff {w : Worker ν ε α} (h : Undisturbed w) :
    w.isCalledOff = false := by
  cases h with
  | intro hoff _ _ => exact hoff

theorem Undisturbed.outcome?_ne {w : Worker ν ε α} (h : Undisturbed w) :
    w.outcome? ≠ some .cancelled := by
  cases h with
  | intro _ hkept _ => exact hkept

theorem Undisturbed.parts {w : Worker ν ε α} (h : Undisturbed w) :
    ∀ p ∈ w.parts, Undisturbed p := by
  cases h with
  | intro _ _ hparts => exact hparts

theorem Undisturbed.at? {w x : Worker ν ε α} {a : Address} (h : Undisturbed w)
    (ha : w.at? a = some x) : Undisturbed x := by
  induction a generalizing w with
  | nil =>
    obtain rfl := Option.some.inj ha
    exact h
  | cons i rest ih =>
    obtain ⟨p, hp, hrest⟩ := Option.bind_eq_some_iff.mp ha
    exact ih (h.parts p (List.mem_of_getElem? hp)) hrest

theorem Undisturbed.withStage {w : Worker ν ε α} (h : Undisturbed w) {stage : Stage ε α}
    (hstage : stage ≠ .ended .cancelled) : Undisturbed (w.withStage stage) := by
  obtain ⟨job, old, off, ps⟩ := w
  refine .intro h.isCalledOff (fun hcancelled => hstage ?_) h.parts
  unfold outcome? Worker.stage Worker.withStage at hcancelled
  split at hcancelled
  · rename_i o ho
    obtain rfl := Option.some.inj hcancelled
    exact ho
  · cases hcancelled

/-- Coming to a job disturbs nobody. -/
theorem Undisturbed.takenOn {w : Worker ν ε α} (h : Undisturbed w) (j : Job ν ε α) :
    Undisturbed (w.takenOn j) := by
  have hoff := h.isCalledOff
  cases j with
  | done v => exact h.withStage (by simp)
  | fail e => exact h.withStage (by simp)
  | operation notes next => exact .intro hoff nofun nofun
  | join parts combine =>
    cases parts with
    | nil => exact h.withStage (by simp)
    | cons part rest =>
      refine .intro hoff nofun fun p hp => ?_
      obtain ⟨k, -, rfl⟩ := List.mem_map.mp hp
      exact undisturbed_ofJob k

/-- Where nobody is to give up for the failure of others, a step disturbs nobody. -/
theorem Undisturbed.moves {s next : Slots Address} {a : Address} {w w' : Worker ν ε α}
    (h : Undisturbed w) (hmove : Moves s false a w w' next) : Undisturbed w' := by
  have hoff := h.isCalledOff
  cases hmove with
  | withdraw => cases hoff
  | breakOff _ => cases hoff
  | stepOut _ => cases hoff
  | unwind => cases hoff
  | abandon => cases hoff
  | begin => exact h.takenOn _
  | goOn _ => exact h.takenOn _
  | takeUp _ _ => exact h
  | @conclude js combine ps _ =>
    refine .intro rfl ?_ h.parts
    have hnone : some .cancelled ∉ ps.map Worker.outcome? := by
      intro hmem
      obtain ⟨p, hp, hcancelled⟩ := List.mem_map.mp hmem
      exact (h.parts p hp).outcome?_ne hcancelled
    exact fun hcancelled => Outcome.verdict_ne_cancelled _ hnone (Option.some.inj hcancelled)

/-- Where one worker is not disturbed, nobody above it is. -/
theorem Undisturbed.update {w x : Worker ν ε α} {f : Worker ν ε α → Worker ν ε α} {a : Address}
    (h : Undisturbed w) (ha : w.at? a = some x) (hf : Undisturbed (f x)) :
    Undisturbed (w.update f a) := by
  induction a generalizing w with
  | nil =>
    obtain rfl := Option.some.inj ha
    exact hf
  | cons i rest ih =>
    obtain ⟨p, hp, hrest⟩ := Option.bind_eq_some_iff.mp ha
    obtain ⟨job, stage, off, ps⟩ := w
    refine .intro h.isCalledOff h.outcome?_ne fun q hq => ?_
    rw [parts_update_cons] at hq
    rcases mem_or_eq_of_mem_modify hq with hmem | ⟨r, hr, rfl⟩
    · exact h.parts q hmem
    · obtain rfl := Option.some.inj (hp.symm.trans hr)
      exact ih (h.parts p (List.mem_of_getElem? hp)) hrest

end Worker

/-- A crew in which nobody is to give up for the failure of others, and nobody has, stays so. -/
theorem Crew.undisturbed_run {c : Crew ν ε α} (hcancels : c.cancelsOnFailure = false)
    (h : c.root.Undisturbed) (schedule : List Address) : (c.run schedule).root.Undisturbed := by
  suffices hrun : (c.run schedule).root.Undisturbed ∧ (c.run schedule).cancelsOnFailure = false
    from hrun.1
  refine run_induction (motive := fun s => s.root.Undisturbed ∧ s.cancelsOnFailure = false)
    ⟨h, hcancels⟩ (fun s next a hs hstep => ?_) schedule
  obtain ⟨hroot, hpatient⟩ := hs
  obtain ⟨w, f, slots, ha, rfl, hmove⟩ := moves_of_step? hstep
  rw [hpatient] at hmove
  exact ⟨hroot.update ha ((hroot.at? ha).moves hmove), hpatient⟩

end TypeAtlas.Concurrency
