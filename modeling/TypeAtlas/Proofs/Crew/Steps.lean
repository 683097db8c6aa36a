import TypeAtlas.Proofs.Crew.Moves
import TypeAtlas.Proofs.Slots.Claims

namespace TypeAtlas.Concurrency

variable {ν ε α : Type}

namespace Job

mutual

/-- The most steps that are left to someone who has come to a job. An operation takes three: into
the line, to a slot, and out again, be it that one is told to give up. -/
def steps : Job ν ε α → Nat
  | .done _ | .fail _ => 0
  | .operation _ next => next.steps + 3
  | .join parts _ => stepsOfAll parts + 1

def stepsOfAll : List (Job ν ε α) → Nat
  | [] => 0
  | j :: js => j.steps + 1 + stepsOfAll js

end

end Job

namespace Worker

/-- The most steps that are left to a worker itself, apart from the one out of the line. -/
def ownSteps (job : Job ν ε α) : Stage ε α → Nat
  | .new => job.steps + 1
  | .operating => match job with
    | .operation _ next => next.steps + 2
    | _ => 2
  | .unwinding | .joining => 1
  | .ended _ => 0

mutual

/-- The most steps that are left to a worker and all below it. -/
def steps : Worker ν ε α → Nat
  | .mk job stage _ parts => ownSteps job stage + stepsOfAll parts

def stepsOfAll : List (Worker ν ε α) → Nat
  | [] => 0
  | p :: ps => p.steps + stepsOfAll ps

end

theorem two_le_ownSteps_operating (job : Job ν ε α) : 2 ≤ ownSteps job .operating := by
  cases job <;> simp [ownSteps]

theorem steps_callOff (w : Worker ν ε α) : w.callOff.steps = w.steps := by
  obtain ⟨job, stage, off, parts⟩ := w
  cases stage <;> rfl

theorem stepsOfAll_map_callOff (ps : List (Worker ν ε α)) :
    stepsOfAll (ps.map callOff) = stepsOfAll ps := by
  induction ps with
  | nil => rfl
  | cons p ps ih => rw [List.map_cons, stepsOfAll, stepsOfAll, steps_callOff, ih]

theorem stepsOfAll_map_ofJob (js : List (Job ν ε α)) :
    stepsOfAll (js.map ofJob) = Job.stepsOfAll js := by
  induction js with
  | nil => rfl
  | cons j js ih =>
    rw [List.map_cons, stepsOfAll, Job.stepsOfAll, ih]
    rfl

theorem steps_takenOn_le (w : Worker ν ε α) (j : Job ν ε α) :
    (w.takenOn j).steps ≤ j.steps + stepsOfAll w.parts := by
  obtain ⟨job, stage, off, parts⟩ := w
  cases j with
  | done v => simp [takenOn, withStage, steps, ownSteps, Worker.parts, Job.steps]
  | fail e => simp [takenOn, withStage, steps, ownSteps, Worker.parts, Job.steps]
  | operation notes next =>
    simp only [takenOn, steps, ownSteps, stepsOfAll, Job.steps]
    omega
  | join js combine =>
    cases js with
    | nil => simp [takenOn, withStage, steps, ownSteps, Worker.parts]
    | cons j js =>
      simp only [takenOn, steps, ownSteps, stepsOfAll_map_ofJob, Job.steps]
      omega

theorem stepsOfAll_modify {ps : List (Worker ν ε α)} {i : Nat} {p : Worker ν ε α}
    (hp : ps[i]? = some p) (f : Worker ν ε α → Worker ν ε α) :
    stepsOfAll (ps.modify i f) + p.steps = stepsOfAll ps + (f p).steps := by
  induction ps generalizing i with
  | nil => cases hp
  | cons q ps ih =>
    cases i with
    | zero =>
      obtain rfl := Option.some.inj hp
      rw [List.modify_zero_cons, stepsOfAll, stepsOfAll]
      omega
    | succ i =>
      have hrest := ih hp
      rw [List.modify_succ_cons, stepsOfAll, stepsOfAll]
      omega

/-- A change of one worker changes the steps that are left as it changes those of that worker. -/
theorem steps_update {w x : Worker ν ε α} {a : Address} (ha : w.at? a = some x)
    (f : Worker ν ε α → Worker ν ε α) : (w.update f a).steps + x.steps = w.steps + (f x).steps := by
  induction a generalizing w with
  | nil =>
    obtain rfl := Option.some.inj ha
    exact Nat.add_comm _ _
  | cons i rest ih =>
    obtain ⟨job, stage, off, parts⟩ := w
    obtain ⟨p, hp, hrest⟩ := Option.bind_eq_some_iff.mp ha
    have hbelow := ih hrest
    have hparts := stepsOfAll_modify hp fun p => p.update f rest
    rw [Worker.parts] at hparts
    rw [update, steps, steps]
    omega

end Worker

namespace Slots

variable {ω : Type}

theorem length_line_callNext (s : Slots ω) : s.callNext.line.length = s.line.length := by
  unfold callNext
  split
  · rename_i n line _ hcall
    obtain ⟨pre, w, post, hline, rfl, _⟩ := callFirst?_eq_some hcall
    simp [hline]
  · rfl

variable [DecidableEq ω]

theorem length_line_enter_le (s : Slots ω) (w : ω) :
    (s.enter w).line.length ≤ s.line.length + 1 := by
  unfold enter
  split
  · omega
  · split <;> simp

theorem length_line_leave (s : Slots ω) (w : ω) : (s.leave w).line.length = s.line.length := by
  unfold leave
  split
  · rw [release, length_line_callNext]
  · rfl

/-- Who takes up a slot in line, or hands it on, leaves the line, and nobody comes into it. -/
theorem length_line_takeUp_le (s : Slots ω) (w : ω) :
    (s.takeUp w).line.length ≤ s.line.length := by
  by_cases hcalled : turn? s.line w = some .called
  · rw [takeUp_of_called hcalled, length_line_callNext]
    exact List.length_filter_le _ _
  · by_cases hoff : turn? s.line w = some .calledOff
    · rw [takeUp_of_calledOff hoff, release, length_line_callNext]
      exact List.length_filter_le _ _
    · have hself := takeUp_eq_self hcalled hoff
      exact Nat.le_of_eq (congrArg (fun t => t.line.length) hself)

theorem length_line_takeUp_lt {s : Slots ω} (hs : s.IsOnce) {w : ω} (h : w ∈ s.owners) :
    (s.takeUp w).line.length < s.line.length := by
  obtain ⟨⟨v, turn⟩, hentry, rfl⟩ := List.mem_map.mp h
  obtain ⟨hline, hturn⟩ := List.mem_filter.mp hentry
  have hself := turn?_of_mem hs.line hline
  have hlt : (s.line.filter (·.1 ≠ v)).length < s.line.length :=
    List.length_filter_lt_length_iff_exists.mpr ⟨_, hline, by simp⟩
  cases turn with
  | waiting => simp at hturn
  | called =>
    rw [takeUp_of_called hself, length_line_callNext]
    exact hlt
  | calledOff =>
    rw [takeUp_of_calledOff hself, release, length_line_callNext]
    exact hlt

theorem length_line_callOff_le (s : Slots ω) (w : ω) :
    (s.callOff w).line.length ≤ s.line.length := by
  simpa [callOff] using List.length_filter_le _ _

theorem length_line_callOffParts_le (s : Slots Address) (a : Address) (n : Nat) :
    (s.callOffParts a n).line.length ≤ s.line.length := by
  induction n with
  | zero => exact Nat.le_refl _
  | succ n ih =>
    simp only [callOffParts, List.range_succ, List.foldl_append, List.foldl_cons,
      List.foldl_nil] at ih ⊢
    exact Nat.le_trans (length_line_callOff_le _ _) ih

end Slots

/-- The steps that are left to a worker that comes to a job, with its place in line if it gets one,
are at most those of the job. -/
theorem steps_takenOn_add_line_le (w : Worker ν ε α) (s : Slots Address) (a : Address)
    (j : Job ν ε α) :
    (w.takenOn j).steps + (s.afterTakingOn a j).line.length ≤
      j.steps + Worker.stepsOfAll w.parts + s.line.length := by
  cases j with
  | operation notes next =>
    have hline := s.length_line_enter_le a
    simp only [Worker.takenOn, Worker.steps, Worker.ownSteps, Worker.stepsOfAll, Job.steps,
      Slots.afterTakingOn]
    omega
  | done v =>
    have hle := w.steps_takenOn_le (.done v)
    simp only [Slots.afterTakingOn]
    omega
  | fail e =>
    have hle := w.steps_takenOn_le (.fail e)
    simp only [Slots.afterTakingOn]
    omega
  | join parts combine =>
    have hle := w.steps_takenOn_le (.join parts combine)
    simp only [Slots.afterTakingOn]
    omega

/-- A step leaves less to do: fewer steps to the worker whose turn it is, or fewer in line. -/
theorem Moves.steps_lt {s s' : Slots Address} {cancels : Bool} {a : Address}
    {w w' : Worker ν ε α} (h : Moves s cancels a w w' s') (hs : s.IsOnce) :
    w'.steps + s'.line.length < w.steps + s.line.length := by
  cases h with
  | withdraw => simp [Worker.steps, Worker.ownSteps]
  | @breakOff j ps hin =>
    have htwo := Worker.two_le_ownSteps_operating j
    simp only [Worker.steps, Worker.ownSteps] at htwo ⊢
    omega
  | @stepOut j ps hin =>
    have htwo := Worker.two_le_ownSteps_operating j
    have hline := s.length_line_takeUp_le a
    simp only [Worker.steps, Worker.ownSteps] at htwo ⊢
    omega
  | unwind =>
    have hline := s.length_line_leave a
    simp only [Worker.steps, Worker.ownSteps]
    omega
  | @abandon j ps =>
    have hline := s.length_line_callOffParts_le a ps.length
    simp only [Worker.steps, Worker.ownSteps, Worker.stepsOfAll_map_callOff]
    omega
  | @begin j ps =>
    have hle := steps_takenOn_add_line_le (.mk j .new false ps) s a j
    simp only [Worker.steps, Worker.ownSteps, Worker.parts] at hle ⊢
    omega
  | @goOn notes next ps hin =>
    have hle := steps_takenOn_add_line_le (.mk (.operation notes next) .operating false ps)
      (s.leave a) a next
    rw [s.length_line_leave a] at hle
    simp only [Worker.steps, Worker.ownSteps, Worker.parts] at hle ⊢
    omega
  | takeUp hin howns =>
    have hlt := Slots.length_line_takeUp_lt hs howns
    omega
  | @conclude js combine ps hwait =>
    cases cancels with
    | false => simp [Worker.steps, Worker.ownSteps]
    | true =>
      have hline := s.length_line_callOffParts_le a ps.length
      simp only [if_true, Worker.steps, Worker.ownSteps, Worker.stepsOfAll_map_callOff]
      omega

namespace Crew

/-- The most steps that a crew can still take, unless someone else tells it to give up. -/
def stepsLeft (c : Crew ν ε α) : Nat :=
  c.root.steps + c.slots.line.length

theorem stepsLeft_lt_of_step? {c next : Crew ν ε α} {a : Address} (hs : c.slots.IsOnce)
    (h : c.step? a = some next) : next.stepsLeft < c.stepsLeft := by
  obtain ⟨w, f, s, ha, rfl, hmove⟩ := moves_of_step? h
  have hworker := hmove.steps_lt hs
  have hroot := Worker.steps_update ha f
  simp only [stepsLeft]
  omega

end Crew

end TypeAtlas.Concurrency
