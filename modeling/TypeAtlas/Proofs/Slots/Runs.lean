import TypeAtlas.Concurrency.Limiter
import TypeAtlas.Proofs.Slots.Conservation

namespace TypeAtlas.Concurrency

/-- What can happen at the slots of a run. Who is inside and told to give up leaves when their turn
comes; until then nothing changes for anybody. -/
inductive SlotEvent (ω : Type)
  /-- Someone asks which slots are those of the run. -/
  | ask
  /-- Someone asks for a slot. -/
  | enter (w : ω)
  /-- Someone leaves, with or without a failure. -/
  | leave (w : ω)
  /-- Someone gives up, inside, in line, or with a slot that was just given to them. -/
  | cancel (w : ω)
  /-- Someone in line who has been given a slot goes on. -/
  | takeUp (w : ω)
  deriving DecidableEq, Repr

namespace SlotEvent

variable {ω : Type}

/-- Whether the slots of the run are needed for this. -/
def asks : SlotEvent ω → Bool
  | .ask | .enter _ => true
  | _ => false

end SlotEvent

namespace Slots

variable {ω : Type} [DecidableEq ω]

def after (s : Slots ω) : SlotEvent ω → Slots ω
  | .ask => s
  | .enter w => s.enter w
  | .leave w => s.leave w
  | .cancel w => s.cancel w
  | .takeUp w => s.takeUp w

def afterAll (s : Slots ω) (events : List (SlotEvent ω)) : Slots ω :=
  events.foldl after s

theorem Sound.after {limit : Option Nat} {s : Slots ω} (h : s.Sound limit) (e : SlotEvent ω) :
    (s.after e).Sound limit := by
  cases e with
  | ask => exact h
  | enter w => exact h.enter w
  | leave w => exact h.leave w
  | takeUp w => exact h.takeUp w
  | cancel w =>
    simp only [Slots.after, cancel]
    split
    · exact h.leave w
    · exact h.callOff w

theorem Sound.afterAll {limit : Option Nat} {s : Slots ω} (h : s.Sound limit)
    (events : List (SlotEvent ω)) : (s.afterAll events).Sound limit := by
  induction events generalizing s with
  | nil => exact h
  | cons e events ih => exact ih (h.after e)

/-- As long as nobody has asked for a slot, nobody can do anything about slots. -/
theorem after_ofLimit {limit : Option Nat} {e : SlotEvent ω} (h : e.asks = false) :
    (ofLimit limit : Slots ω).after e = ofLimit limit := by
  cases e with
  | ask => cases h
  | enter w => cases h
  | leave w => rfl
  | cancel w => rfl
  | takeUp w => rfl

omit [DecidableEq ω] in
theorem length_owners (s : Slots ω) : s.owners.length = owed s.line :=
  List.length_map _

/-- All that `n` slots are to keep to. -/
structure IsKept (n : Nat) (s : Slots ω) : Prop where
  /-- Nobody is inside or in line twice. -/
  once : (s.inside ++ s.waiting).Nodup
  bounded : s.inside.length ≤ n
  /-- Every slot is free, in use, or given to someone in line who has not taken it up yet. -/
  total : ∃ free, s.free = some free ∧ free + s.inside.length + s.owners.length = n
  /-- Nobody waits while a slot is free, unless someone in line is about to take one up. -/
  served : ∀ w, (w, .waiting) ∈ s.line → s.hasFree = true → s.owners ≠ []
  /-- Once nobody is left, all slots are free again. -/
  restored : s.inside = [] → s.line = [] → s.free = some n

omit [DecidableEq ω] in
theorem Sound.isKept {n : Nat} {s : Slots ω} (h : s.Sound (some n)) : s.IsKept n := by
  obtain ⟨free, hfree, htotal⟩ := Option.map_eq_some_iff.mp h.total
  refine { once := h.once, bounded := by omega, total := ⟨free, hfree, ?_⟩, served := ?_,
           restored := ?_ }
  · rw [length_owners]
    exact htotal
  · intro w hw hroom hnone
    obtain hzero | howed := h.served ⟨_, hw, rfl⟩
    · simp [hasFree, hzero] at hroom
    · rw [← length_owners, hnone] at howed
      exact absurd howed (Nat.lt_irrefl 0)
  · intro hinside hline
    rw [hinside, hline] at htotal
    rw [hfree]
    exact congrArg some htotal

end Slots

namespace Limiter

variable {ω : Type} [DecidableEq ω]

def after (l : Limiter ω) (run : Nat) : SlotEvent ω → Limiter ω
  | .ask => (l.open? run).getD l
  | .enter w => l.enter run w
  | .leave w => l.leave run w
  | .cancel w => l.cancel run w
  | .takeUp w => l.update run (·.takeUp w)

def afterAll (l : Limiter ω) (run : Nat) (events : List (SlotEvent ω)) : Limiter ω :=
  events.foldl (·.after run) l

/-- The limiter after some runs, one after the other, of which the first has the number `first`. -/
def afterRuns (l : Limiter ω) (first : Nat) : List (List (SlotEvent ω)) → Limiter ω
  | [] => l
  | events :: later => (l.afterAll first events).afterRuns (first + 1) later

/-- The slots that a run has been given. -/
def slotsOf (l : Limiter ω) (run : Nat) : List (Slots ω) :=
  (l.rooms.filter (·.1 = run)).map (·.2)

/-- All that a run has to do with the slots it has been given: none as long as nobody asked for any,
and then one and the same. What earlier runs have left behind, in `rest`, is as it was. -/
inductive Hosts (n run : Nat) (rest : List (Nat × Slots ω)) :
    Limiter ω → Bool → Slots ω → Prop
  | unasked : Hosts n run rest ⟨some n, rest⟩ false (.ofLimit (some n))
  | asked {s : Slots ω} : Hosts n run rest ⟨some n, (run, s) :: rest⟩ true s

variable {n run : Nat} {rest : List (Nat × Slots ω)}

omit [DecidableEq ω] in
theorem update_eq_self (hrest : ∀ room ∈ rest, room.1 ≠ run) (limit : Option Int)
    (f : Slots ω → Slots ω) : update ⟨limit, rest⟩ run f = ⟨limit, rest⟩ := by
  have hrooms : rest.map (fun room => if room.1 = run then (run, f room.2) else room) = rest :=
    (List.map_congr_left fun room hroom => if_neg (hrest room hroom)).trans (List.map_id rest)
  rw [update, hrooms]

omit [DecidableEq ω] in
theorem update_head (hrest : ∀ room ∈ rest, room.1 ≠ run) (limit : Option Int) (s : Slots ω)
    (f : Slots ω → Slots ω) :
    update ⟨limit, (run, s) :: rest⟩ run f = ⟨limit, (run, f s) :: rest⟩ := by
  have h := update_eq_self hrest limit f
  simp only [update, Limiter.mk.injEq, true_and] at h
  simp [update, h]

omit [DecidableEq ω] in
theorem open?_unasked (hrest : ∀ room ∈ rest, room.1 ≠ run) :
    open? ⟨some n, rest⟩ run = some ⟨some n, (run, .ofLimit (some n)) :: rest⟩ := by
  cases rest with
  | nil => simp [open?, capacity?]
  | cons room rest =>
    have hne := hrest room List.mem_cons_self
    simp [open?, capacity?, hne]

omit [DecidableEq ω] in
theorem open?_asked (s : Slots ω) :
    open? ⟨some n, (run, s) :: rest⟩ run = some ⟨some n, (run, s) :: rest⟩ := by
  simp [open?]

theorem enter_unasked (hrest : ∀ room ∈ rest, room.1 ≠ run) (w : ω) :
    enter ⟨some n, rest⟩ run w =
      ⟨some n, (run, (Slots.ofLimit (some n)).enter w) :: rest⟩ := by
  have habsent : isPresent ⟨some n, rest⟩ run w = false := by
    simpa [isPresent] using fun owner s hroom heq => absurd heq (hrest (owner, s) hroom)
  simp [enter, habsent, open?_unasked hrest]

theorem enter_asked (hrest : ∀ room ∈ rest, room.1 ≠ run) (s : Slots ω) (w : ω) :
    enter ⟨some n, (run, s) :: rest⟩ run w = ⟨some n, (run, s.enter w) :: rest⟩ := by
  have hothers : isPresent ⟨some n, rest⟩ run w = false := by
    simpa [isPresent] using fun owner s hroom heq => absurd heq (hrest (owner, s) hroom)
  have hpresent : isPresent ⟨some n, (run, s) :: rest⟩ run w = s.isPresent w := by
    simp only [isPresent, List.any_cons] at hothers ⊢
    simp [hothers]
  rw [enter, hpresent, open?_asked]
  cases h : s.isPresent w with
  | true => simp [Slots.enter, h]
  | false => simp

/-- What does not ask for slots changes those that the run has. -/
theorem after_eq_update {e : SlotEvent ω} (h : e.asks = false) (l : Limiter ω) (run : Nat) :
    l.after run e = l.update run (·.after e) := by
  cases e with
  | ask => cases h
  | enter w => cases h
  | leave w => rfl
  | cancel w => rfl
  | takeUp w => rfl

/-- Whatever happens in a run happens to its own slots. -/
theorem Hosts.after {l : Limiter ω} {asked : Bool} {s : Slots ω} (h : Hosts n run rest l asked s)
    (hrest : ∀ room ∈ rest, room.1 ≠ run) (e : SlotEvent ω) :
    Hosts n run rest (l.after run e) (asked || e.asks) (s.after e) := by
  cases hasks : e.asks with
  | false =>
    rw [after_eq_update hasks, Bool.or_false]
    cases h with
    | unasked =>
      rw [update_eq_self hrest, Slots.after_ofLimit hasks]
      exact .unasked
    | asked =>
      rw [update_head hrest]
      exact .asked
  | true =>
    rw [Bool.or_true]
    cases e with
    | ask =>
      cases h with
      | unasked =>
        rw [Limiter.after, open?_unasked hrest]
        exact .asked
      | asked =>
        rw [Limiter.after, open?_asked]
        exact .asked
    | enter w =>
      cases h with
      | unasked =>
        rw [Limiter.after, enter_unasked hrest]
        exact .asked
      | asked =>
        rw [Limiter.after, enter_asked hrest]
        exact .asked
    | leave w => cases hasks
    | cancel w => cases hasks
    | takeUp w => cases hasks

theorem Hosts.afterAll {l : Limiter ω} {asked : Bool} {s : Slots ω}
    (h : Hosts n run rest l asked s) (hrest : ∀ room ∈ rest, room.1 ≠ run)
    (events : List (SlotEvent ω)) :
    Hosts n run rest (l.afterAll run events) (asked || events.any SlotEvent.asks)
      (s.afterAll events) := by
  induction events generalizing l asked s with
  | nil =>
    rw [List.any_nil, Bool.or_false]
    exact h
  | cons e events ih =>
    have hrun := ih (h.after hrest e)
    rw [Bool.or_assoc] at hrun
    exact hrun

omit [DecidableEq ω] in
theorem Hosts.slotsOf {l : Limiter ω} {asked : Bool} {s : Slots ω}
    (h : Hosts n run rest l asked s) (hrest : ∀ room ∈ rest, room.1 ≠ run) :
    l.slotsOf run = if asked then [s] else [] := by
  have hnone : rest.filter (·.1 = run) = [] :=
    List.filter_eq_nil_iff.mpr fun room hroom => by simpa using hrest room hroom
  cases h with
  | unasked => simp [Limiter.slotsOf, hnone]
  | asked => simp [Limiter.slotsOf, hnone]

omit [DecidableEq ω] in
/-- What a run leaves behind are the slots of earlier runs, and its own. -/
theorem Hosts.rooms {l : Limiter ω} {asked : Bool} {s : Slots ω} (h : Hosts n run rest l asked s)
    (hrest : ∀ room ∈ rest, room.1 < run) :
    l.limit = some (n : Int) ∧ ∀ room ∈ l.rooms, room.1 < run + 1 := by
  cases h with
  | unasked => exact ⟨rfl, fun room hroom => Nat.lt_succ_of_lt (hrest room hroom)⟩
  | asked =>
    refine ⟨rfl, fun room hroom => ?_⟩
    obtain rfl | hroom := List.mem_cons.mp hroom
    · exact Nat.lt_succ_self run
    · exact Nat.lt_succ_of_lt (hrest room hroom)

omit [DecidableEq ω] in
/-- A run that has not begun has no slots, whatever other runs have left behind. -/
theorem hosts_of_limit {l : Limiter ω} (h : l.limit = some (n : Int)) :
    Hosts n run l.rooms l false (.ofLimit (some n)) := by
  obtain ⟨limit, rooms⟩ := l
  obtain rfl : limit = some (n : Int) := h
  exact .unasked

/-- The runs so far have left behind nothing that a later run could take for its own. -/
theorem rooms_afterRuns {l : Limiter ω} {first : Nat} (hlimit : l.limit = some (n : Int))
    (hrooms : ∀ room ∈ l.rooms, room.1 < first) (runs : List (List (SlotEvent ω))) :
    (l.afterRuns first runs).limit = some (n : Int) ∧
      ∀ room ∈ (l.afterRuns first runs).rooms, room.1 < first + runs.length := by
  induction runs generalizing l first with
  | nil => exact ⟨hlimit, hrooms⟩
  | cons events later ih =>
    have hend := (hosts_of_limit hlimit).afterAll (fun room hroom => Nat.ne_of_lt (hrooms room hroom)) events
    obtain ⟨hlimit, hleft⟩ := hend.rooms hrooms
    obtain ⟨hlast, hall⟩ := ih hlimit hleft
    refine ⟨hlast, fun room hroom => ?_⟩
    have hlt := hall room hroom
    rw [List.length_cons]
    omega

/-- A run finds all slots free, in whatever state earlier runs have left theirs, and all who ask for
one share the same slots; these are kept at every moment. -/
theorem isKept_afterRuns (n : Nat) (earlier : List (List (SlotEvent ω)))
    (events : List (SlotEvent ω)) :
    let run := earlier.length
    let l := ((ofLimit (some n)).afterRuns 0 earlier).afterAll run events
    let s := (Slots.ofLimit (some n)).afterAll events
    l.slotsOf run = (if events.any SlotEvent.asks then [s] else []) ∧ s.IsKept n := by
  intro run l s
  refine ⟨?_, ((Slots.sound_ofLimit (some n)).afterAll events).isKept⟩
  have hnone : ∀ room ∈ (ofLimit (ω := ω) (some n)).rooms, room.1 < 0 :=
    fun room hroom => absurd hroom List.not_mem_nil
  obtain ⟨hlimit, hrooms⟩ := rooms_afterRuns rfl hnone earlier
  rw [Nat.zero_add] at hrooms
  have hrest : ∀ room ∈ ((ofLimit (some n)).afterRuns 0 earlier).rooms, room.1 ≠ run :=
    fun room hroom => Nat.ne_of_lt (hrooms room hroom)
  exact ((hosts_of_limit hlimit).afterAll hrest events).slotsOf hrest

end Limiter

end TypeAtlas.Concurrency
