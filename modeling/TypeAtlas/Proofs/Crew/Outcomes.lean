import Mathlib.Data.List.Forall2
import TypeAtlas.Proofs.Crew.JobFailures
import TypeAtlas.Proofs.Crew.Moves

namespace TypeAtlas.Concurrency

open Job

variable {ν ε α : Type}

/-- `Carries j w` says that the worker `w`, who was given the job `j`, has kept to it: what is left
to do comes from `j`, nobody has told parts that are still awaited to give up, and an end is one
that `j` can have. Nothing is said of what goes on below a worker that has ended. -/
inductive Carries : Job ν ε α → Worker ν ε α → Prop
  | new {j off} : Carries j (.mk j .new off [])
  | operating {j notes next off} :
      j.Comes (.operation notes next) → Carries j (.mk (.operation notes next) .operating off [])
  | unwinding {j k} : Carries j (.mk k .unwinding true [])
  | joining {j js combine off ps} :
      j.Comes (.join js combine) → List.Forall₂ Carries js ps →
        (∀ p ∈ ps, p.isCalledOff = false) → Carries j (.mk (.join js combine) .joining off ps)
  | value {j v k off ps} : j.result = .ok v → Carries j (.mk k (.ended (.value v)) off ps)
  | failure {j e k off ps} : j.Fails e → Carries j (.mk k (.ended (.failure e)) off ps)
  | cancelled {j k ps} : Carries j (.mk k (.ended .cancelled) true ps)

/-- What comes of a worker that has kept to its job and was not told to give up. -/
theorem Carries.outcome {j : Job ν ε α} {w : Worker ν ε α} (h : Carries j w)
    (hoff : w.isCalledOff = false) {o : Outcome ε α} (ho : w.outcome? = some o) :
    (∃ v, o = .value v ∧ j.result = .ok v) ∨ ∃ e, o = .failure e ∧ j.Fails e := by
  cases h with
  | new => cases ho
  | operating _ => cases ho
  | unwinding => cases ho
  | joining _ _ _ => cases ho
  | value hv => exact .inl ⟨_, (Option.some.inj ho).symm, hv⟩
  | failure he => exact .inr ⟨_, (Option.some.inj ho).symm, he⟩
  | cancelled => cases hoff

theorem carries_map_ofJob (js : List (Job ν ε α)) :
    List.Forall₂ Carries js (js.map Worker.ofJob) := by
  induction js with
  | nil => exact .nil
  | cons j js ih => exact .cons .new ih

theorem Carries.takenOn {j k : Job ν ε α} (hk : j.Comes k) (w : Worker ν ε α) :
    Carries j (w.takenOn k) := by
  obtain ⟨job, stage, off, ps⟩ := w
  cases k with
  | done v => exact .value hk.result_eq
  | fail e => exact .failure (hk.fails .fail)
  | operation notes next => exact .operating hk
  | join parts combine =>
    cases parts with
    | nil => exact .value (by rw [hk.result_eq, result]; rfl)
    | cons p ps =>
      refine .joining hk (carries_map_ofJob _) fun q hq => ?_
      obtain ⟨i, _, rfl⟩ := List.mem_map.mp hq
      rfl

@[simp] theorem Worker.isCalledOff_takenOn (w : Worker ν ε α) (j : Job ν ε α) :
    (w.takenOn j).isCalledOff = w.isCalledOff := by
  cases w
  cases j with
  | join parts combine => cases parts <;> rfl
  | done v => rfl
  | fail e => rfl
  | operation notes next => rfl

/-- Values of all parts are the result of a join. -/
theorem results_of_values {js : List (Job ν ε α)} {ps : List (Worker ν ε α)}
    (h : List.Forall₂ Carries js ps) (hvalues : ∀ p ∈ ps, ∃ v, p.outcome? = some (.value v)) :
    results js = .ok ((ps.map Worker.outcome?).filterMap (·.bind Outcome.value?)) := by
  induction h with
  | nil => rfl
  | @cons j p js ps hp _ ih =>
    obtain ⟨v, hv⟩ := hvalues p List.mem_cons_self
    have hrest := ih fun q hq => hvalues q (List.mem_cons_of_mem p hq)
    have hj : j.result = .ok v := by
      cases hp <;> simp_all [Worker.outcome?, Worker.stage]
    refine results_cons_eq_ok.mpr ⟨v, _, hj, hrest, ?_⟩
    simp [hv, Outcome.value?]

theorem exists_carries_of_mem {js : List (Job ν ε α)} {ps : List (Worker ν ε α)}
    (h : List.Forall₂ Carries js ps) {p : Worker ν ε α} (hp : p ∈ ps) : ∃ j ∈ js, Carries j p := by
  induction h with
  | nil => cases hp
  | @cons j q js ps hq _ ih =>
    rcases List.mem_cons.mp hp with rfl | hmem
    · exact ⟨j, List.mem_cons_self, hq⟩
    · obtain ⟨k, hk, hcarries⟩ := ih hmem
      exact ⟨k, List.mem_cons_of_mem j hk, hcarries⟩

/-- A wait that is over without a failure has heard of all. -/
theorem isSome_of_endWait {outcomes : List (Option (Outcome ε α))}
    (hwait : Outcome.endWait outcomes = true)
    (hnone : ∀ o ∈ outcomes, o.bind (Outcome.fault? (β := α)) = none) :
    ∀ o ∈ outcomes, o.isSome = true := by
  rw [Outcome.endWait, Bool.or_eq_true] at hwait
  rcases hwait with hall | hany
  · exact List.all_eq_true.mp hall
  · obtain ⟨o, ho, hfailure⟩ := List.any_eq_true.mp hany
    have hfree := hnone o ho
    cases o with
    | none => cases hfailure
    | some o => cases o <;> simp [Outcome.isFailure, Outcome.fault?] at hfailure hfree

/-- The verdict on parts that have kept to their jobs is an end that the join can have. -/
theorem carries_verdict {js : List (Job ν ε α)} {combine : List α → List ν × α}
    {ps : List (Worker ν ε α)} (h : List.Forall₂ Carries js ps)
    (hoff : ∀ p ∈ ps, p.isCalledOff = false)
    (hwait : Outcome.endWait (ps.map Worker.outcome?) = true) :
    (∃ v, Outcome.verdict (fun found => Except.ok (combine found).2) (ps.map Worker.outcome?) =
        .value v ∧ (Job.join js combine).result = .ok v) ∨
      ∃ e, Outcome.verdict (fun found => Except.ok (combine found).2) (ps.map Worker.outcome?) =
        .failure e ∧ (Job.join js combine).Fails e := by
  unfold Outcome.verdict
  cases hfault : (ps.map Worker.outcome?).findSome?
      (·.bind (Outcome.fault? (β := α))) with
  | some fault =>
    obtain ⟨outcome, hmem, hbind⟩ := List.exists_of_findSome?_eq_some hfault
    obtain ⟨p, hp, rfl⟩ := List.mem_map.mp hmem
    obtain ⟨o, ho, hofault⟩ := Option.bind_eq_some_iff.mp hbind
    obtain ⟨j, hj, hcarries⟩ := exists_carries_of_mem h hp
    obtain ⟨v, rfl, _⟩ | ⟨e, rfl, hfails⟩ := hcarries.outcome (hoff p hp) ho
    · cases hofault
    · exact .inr ⟨e, (Option.some.inj hofault).symm, .part hj hfails⟩
  | none =>
    have hnone := List.findSome?_eq_none_iff.mp hfault
    have hvalues : ∀ p ∈ ps, ∃ v, p.outcome? = some (.value v) := by
      intro p hp
      have hended := isSome_of_endWait hwait hnone _ (List.mem_map_of_mem hp)
      obtain ⟨o, ho⟩ := Option.isSome_iff_exists.mp hended
      have hfree := hnone _ (List.mem_map_of_mem hp)
      cases o with
      | value v => exact ⟨v, ho⟩
      | failure e => simp [ho, Outcome.fault?] at hfree
      | cancelled => simp [ho, Outcome.fault?] at hfree
    refine .inl ⟨_, rfl, ?_⟩
    rw [result, results_of_values h hvalues]
    rfl

/-- A step keeps a worker to its job. -/
theorem Carries.moves {s next : Slots Address} {cancels : Bool} {a : Address} {j : Job ν ε α}
    {w w' : Worker ν ε α} (h : Carries j w) (hmove : Moves s cancels a w w' next) :
    Carries j w' ∧ w'.isCalledOff = w.isCalledOff := by
  cases hmove with
  | withdraw => exact ⟨.cancelled, rfl⟩
  | breakOff _ =>
    cases h
    exact ⟨.unwinding, rfl⟩
  | stepOut _ => exact ⟨.cancelled, rfl⟩
  | unwind => exact ⟨.cancelled, rfl⟩
  | abandon => exact ⟨.cancelled, rfl⟩
  | begin =>
    cases h
    exact ⟨.takenOn .whole _, Worker.isCalledOff_takenOn _ _⟩
  | goOn _ =>
    cases h with
    | operating hcomes => exact ⟨.takenOn hcomes.next _, Worker.isCalledOff_takenOn _ _⟩
  | takeUp _ _ => exact ⟨h, rfl⟩
  | conclude hwait =>
    cases h with
    | joining hcomes hparts hoff =>
      obtain ⟨v, hv, hresult⟩ | ⟨e, he, hfails⟩ := carries_verdict hparts hoff hwait
      · rw [hv]
        exact ⟨.value (hcomes.result_eq.trans hresult), rfl⟩
      · rw [he]
        exact ⟨.failure (hcomes.fails hfails), rfl⟩

theorem mem_or_eq_of_mem_modify {ps : List (Worker ν ε α)} {i : Nat}
    {f : Worker ν ε α → Worker ν ε α} {q : Worker ν ε α} (h : q ∈ ps.modify i f) :
    q ∈ ps ∨ ∃ p, ps[i]? = some p ∧ q = f p := by
  obtain ⟨n, hn⟩ := List.getElem?_of_mem h
  by_cases hin : i = n
  · subst hin
    rw [List.getElem?_modify_eq] at hn
    obtain ⟨p, hp, rfl⟩ := Option.map_eq_some_iff.mp hn
    exact .inr ⟨p, hp, rfl⟩
  · rw [List.getElem?_modify_ne _ _ hin] at hn
    exact .inl (List.mem_of_getElem? hn)

theorem carries_modify {js : List (Job ν ε α)} {ps : List (Worker ν ε α)}
    (h : List.Forall₂ Carries js ps) (i : Nat) (f : Worker ν ε α → Worker ν ε α)
    (hf : ∀ j p, ps[i]? = some p → Carries j p → Carries j (f p)) :
    List.Forall₂ Carries js (ps.modify i f) := by
  induction h generalizing i with
  | nil => simp
  | @cons j p js ps hp hps ih =>
    cases i with
    | zero =>
      rw [List.modify_zero_cons]
      exact .cons (hf j p rfl hp) hps
    | succ i =>
      rw [List.modify_succ_cons]
      exact .cons hp (ih i hf)

/-- A change that keeps one worker to its job keeps all above it to theirs. -/
theorem Carries.update {j : Job ν ε α} {w x : Worker ν ε α}
    {f : Worker ν ε α → Worker ν ε α} {a : Address} (h : Carries j w) (ha : w.at? a = some x)
    (hf : ∀ k, Carries k x → Carries k (f x) ∧ (f x).isCalledOff = x.isCalledOff) :
    Carries j (w.update f a) ∧ (w.update f a).isCalledOff = w.isCalledOff := by
  induction a generalizing j w with
  | nil =>
    obtain rfl := Option.some.inj ha
    exact hf j h
  | cons i rest ih =>
    refine ⟨?_, Worker.isCalledOff_update_cons w f i rest⟩
    rw [Worker.at?_cons] at ha
    obtain ⟨p, hp, hrest⟩ := Option.bind_eq_some_iff.mp ha
    cases h with
    | new => cases hp
    | operating _ => cases hp
    | unwinding => cases hp
    | joining hcomes hparts hoff =>
      refine .joining hcomes (carries_modify hparts i _ fun k q hq hk => ?_) fun q hq => ?_
      · obtain rfl := Option.some.inj (hp.symm.trans hq)
        exact (ih hk hrest).1
      · rcases mem_or_eq_of_mem_modify hq with hq | ⟨r, hr, rfl⟩
        · exact hoff q hq
        · obtain rfl := Option.some.inj (hp.symm.trans hr)
          have hmem := List.mem_of_getElem? hp
          obtain ⟨k, _, hk⟩ := exists_carries_of_mem hparts hmem
          exact (ih hk hrest).2.trans (hoff p hmem)
    | value hv => exact .value hv
    | failure he => exact .failure he
    | cancelled => exact .cancelled

namespace Crew

theorem carries_step? {c next : Crew ν ε α} {a : Address} {j : Job ν ε α}
    (h : c.step? a = some next) (hc : Carries j c.root) :
    Carries j next.root ∧ next.root.isCalledOff = c.root.isCalledOff := by
  obtain ⟨w, f, s, ha, rfl, hmove⟩ := moves_of_step? h
  exact hc.update ha fun k hk => hk.moves hmove

theorem carries_run {c : Crew ν ε α} {j : Job ν ε α} (hc : Carries j c.root)
    (schedule : List Address) :
    Carries j (c.run schedule).root ∧ (c.run schedule).root.isCalledOff = c.root.isCalledOff := by
  refine run_induction (motive := fun s => Carries j s.root ∧ s.root.isCalledOff =
    c.root.isCalledOff) ⟨hc, rfl⟩ (fun s next a hs hstep => ?_) schedule
  obtain ⟨hcarries, hoff⟩ := hs
  obtain ⟨hnext, hkept⟩ := carries_step? hstep hcarries
  exact ⟨hnext, hkept.trans hoff⟩

/-- Whatever the schedule, a crew that nobody calls off from outside ends with the result of its
job, or with a failure that comes up in it. -/
theorem outcome_run {j : Job ν ε α} {limit : Option Nat} {cancels : Bool}
    {schedule : List Address} {o : Outcome ε α}
    (h : ((start j limit cancels).run schedule).root.outcome? = some o) :
    (∃ v, o = .value v ∧ j.result = .ok v) ∨ ∃ e, o = .failure e ∧ j.Fails e := by
  obtain ⟨hcarries, hoff⟩ := carries_run (c := start j limit cancels) .new schedule
  exact hcarries.outcome hoff h

end Crew

end TypeAtlas.Concurrency
