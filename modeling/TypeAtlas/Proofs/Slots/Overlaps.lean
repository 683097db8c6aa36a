import Mathlib.Algebra.Group.Action.Defs
import Mathlib.Algebra.Order.BigOperators.Group.List
import Mathlib.Algebra.Order.Ring.Nat
import Mathlib.Data.List.Nodup
import TypeAtlas.Proofs.Slots.Runs

namespace TypeAtlas.Concurrency

/-- What can happen at a limiter that several runs use at the same time. -/
inductive SharedEvent (ω : Type)
  /-- Someone of a run asks which slots are those of the run. -/
  | ask (run : Nat)
  /-- Something happens at slots that someone has been shown, which are the `i`th from the latest
  by now. -/
  | atSlots (i : Nat) (e : SlotEvent ω)
  deriving DecidableEq, Repr

namespace SharedEvent

variable {ω : Type}

def caller? : SharedEvent ω → Option Nat
  | .ask run => some run
  | .atSlots .. => none

/-- The runs that ask for their slots, in order. -/
def callers (events : List (SharedEvent ω)) : List Nat :=
  events.filterMap caller?

@[simp] theorem callers_nil : callers ([] : List (SharedEvent ω)) = [] := rfl

@[simp] theorem callers_cons_ask (run : Nat) (events : List (SharedEvent ω)) :
    callers (.ask run :: events) = run :: callers events := rfl

@[simp] theorem callers_cons_atSlots (i : Nat) (e : SlotEvent ω) (events : List (SharedEvent ω)) :
    callers (.atSlots i e :: events) = callers events := rfl

@[simp] theorem callers_append (events later : List (SharedEvent ω)) :
    callers (events ++ later) = callers events ++ callers later :=
  List.filterMap_append

@[simp] theorem callers_map_atSlots (i : Nat) (events : List (SlotEvent ω)) :
    callers (events.map (.atSlots i)) = [] := by
  induction events with
  | nil => rfl
  | cons e events ih => exact ih

end SharedEvent

open SharedEvent

/-- How often a run asks when it was not the last to ask, which was `last`. -/
def turns (run : Nat) (last : Option Nat) : List Nat → Nat
  | [] => 0
  | caller :: callers =>
    (if caller = run ∧ last ≠ some run then 1 else 0) + turns run (some caller) callers

/-- A run that asks again after another one had asked has two turns. -/
example : turns 0 none [0, 0, 1, 0] = 2 := rfl

theorem turns_cons_of_eq {run caller : Nat} {last : Option Nat} (h : last = some caller)
    (callers : List Nat) : turns run last (caller :: callers) = turns run (some caller) callers := by
  subst h
  have hsame : ¬(caller = run ∧ some caller ≠ some run) := by
    rintro ⟨rfl, hne⟩
    exact hne rfl
  rw [turns, if_neg hsame, Nat.zero_add]

theorem turns_cons_of_ne {run caller : Nat} {last : Option Nat} (h : last ≠ some caller)
    (callers : List Nat) : turns run last (caller :: callers) =
      (if caller = run then 1 else 0) + turns run (some caller) callers := by
  rw [turns]
  congr 2
  rw [eq_iff_iff, and_iff_left_iff_imp]
  rintro rfl
  exact h

namespace Slots

variable {ω : Type} [DecidableEq ω]

/-- Newcomers go inside as long as there are free slots. -/
theorem afterAll_enter (free : Nat) {ws vs : List ω} (hnew : (ws ++ vs).Nodup) :
    (⟨some (free + vs.length), ws, []⟩ : Slots ω).afterAll (vs.map .enter) =
      ⟨some free, ws ++ vs, []⟩ := by
  induction vs generalizing ws with
  | nil => simp [afterAll]
  | cons v vs ih =>
    rw [List.append_cons] at hnew ⊢
    have hv : v ∉ ws := by
      have hfirst := (List.nodup_append.mp hnew).1
      exact fun hmem => (List.nodup_append.mp hfirst).2.2 v hmem v List.mem_cons_self rfl
    have hgoesIn : (⟨some (free + (v :: vs).length), ws, []⟩ : Slots ω).enter v =
        ⟨some (free + vs.length), ws ++ [v], []⟩ := by
      simp [enter, isPresent, hasFree, hv]
    rw [← ih hnew, ← hgoesIn]
    rfl

end Slots

namespace Limiter

variable {ω : Type} [DecidableEq ω]

/-- Applies `f` to the `i`th slots from the latest. -/
def updateAt (l : Limiter ω) (i : Nat) (f : Slots ω → Slots ω) : Limiter ω :=
  { l with rooms := l.rooms.modify i fun room => (room.1, f room.2) }

def afterShared (l : Limiter ω) : SharedEvent ω → Limiter ω
  | .ask run => (l.open? run).getD l
  | .atSlots i e => l.updateAt i (·.after e)

def afterAllShared (l : Limiter ω) (events : List (SharedEvent ω)) : Limiter ω :=
  events.foldl afterShared l

theorem afterAllShared_append (l : Limiter ω) (events later : List (SharedEvent ω)) :
    l.afterAllShared (events ++ later) = (l.afterAllShared events).afterAllShared later :=
  List.foldl_append

/-- The runs to which the slots belong, that of the latest first. -/
def owners (l : Limiter ω) : List Nat :=
  l.rooms.map (·.1)

variable {n : Nat} {l : Limiter ω}

omit [DecidableEq ω] in
@[simp] theorem owners_updateAt (l : Limiter ω) (i : Nat) (f : Slots ω → Slots ω) :
    (l.updateAt i f).owners = l.owners := by
  have hrooms (rooms : List (Nat × Slots ω)) :
      (rooms.modify i fun room => (room.1, f room.2)).map (·.1) = rooms.map (·.1) := by
    induction rooms generalizing i with
    | nil => simp
    | cons room rooms ih =>
      cases i with
      | zero => simp
      | succ i => simp [ih]
  exact hrooms l.rooms

omit [DecidableEq ω] in
/-- A run that was the last to ask keeps its slots, and any other is given new ones. -/
theorem open?_eq (h : l.limit = some (n : Int)) (run : Nat) :
    l.open? run = some (if l.owners.head? = some run then l
      else { l with rooms := (run, .ofLimit (some n)) :: l.rooms }) := by
  obtain ⟨limit, rooms⟩ := l
  obtain rfl : limit = some (n : Int) := h
  cases rooms with
  | nil => simp [open?, capacity?, owners]
  | cons room rooms =>
    by_cases howner : room.1 = run
    · simp [open?, owners, howner]
    · simp [open?, owners, howner, capacity?]

/-- Where only some members of a list change, they can change one after the other. -/
theorem exists_foldl_modify_eq_map {α : Type} (p : α → Prop) [DecidablePred p] (f : α → α)
    (xs : List α) : ∃ positions : List Nat,
      positions.foldl (fun xs i => xs.modify i f) xs = xs.map fun x => if p x then f x else x := by
  induction xs with
  | nil => exact ⟨[], rfl⟩
  | cons x xs ih =>
    obtain ⟨positions, hpositions⟩ := ih
    have hbelow (y : α) (ys : List α) : (positions.map (· + 1)).foldl
        (fun xs i => xs.modify i f) (y :: ys) =
          y :: positions.foldl (fun xs i => xs.modify i f) ys := by
      clear hpositions
      induction positions generalizing ys with
      | nil => rfl
      | cons i positions ih => simpa using ih (ys.modify i f)
    by_cases hx : p x
    · refine ⟨0 :: positions.map (· + 1), ?_⟩
      rw [List.foldl_cons, List.modify_zero_cons, hbelow, hpositions, List.map_cons, if_pos hx]
    · refine ⟨positions.map (· + 1), ?_⟩
      rw [hbelow, hpositions, List.map_cons, if_neg hx]

theorem exists_afterAllShared_eq_update (l : Limiter ω) (run : Nat) (e : SlotEvent ω) :
    ∃ events, l.afterAllShared events = l.update run (·.after e) ∧ callers events = [] := by
  obtain ⟨positions, hpositions⟩ := exists_foldl_modify_eq_map
    (fun room : Nat × Slots ω => room.1 = run) (fun room => (room.1, room.2.after e)) l.rooms
  have hall : l.afterAllShared (positions.map (.atSlots · e)) = { l with
      rooms := positions.foldl
        (fun rooms i => rooms.modify i fun room => (room.1, room.2.after e)) l.rooms } := by
    clear hpositions
    induction positions generalizing l with
    | nil => rfl
    | cons i positions ih => exact ih (l.updateAt i (·.after e))
  refine ⟨positions.map (.atSlots · e), ?_, ?_⟩
  · rw [hall, hpositions, update]
    congr 2
    funext room
    by_cases howner : room.1 = run
    · rw [if_pos howner, if_pos howner, howner]
    · rw [if_neg howner, if_neg howner]
  · rw [callers, List.filterMap_eq_nil_iff]
    intro event hevent
    obtain ⟨i, _, rfl⟩ := List.mem_map.mp hevent
    rfl

/-- Whatever happens in a run is among what can happen at a shared limiter. -/
theorem exists_afterAllShared_eq_after (l : Limiter ω) (run : Nat) (e : SlotEvent ω) :
    ∃ events, l.afterAllShared events = l.after run e ∧
      ∀ caller ∈ callers events, caller = run := by
  cases hasks : e.asks with
  | false =>
    obtain ⟨events, hafter, hnone⟩ := l.exists_afterAllShared_eq_update run e
    rw [← after_eq_update hasks] at hafter
    exact ⟨events, hafter, by simp [hnone]⟩
  | true =>
    cases e with
    | ask => exact ⟨[.ask run], rfl, by simp⟩
    | enter w =>
      rw [after, enter]
      cases l.isPresent run w with
      | true => exact ⟨[], rfl, by simp⟩
      | false =>
        cases hopen : l.open? run with
        | none => exact ⟨[], rfl, by simp⟩
        | some opened =>
          have hask : l.afterShared (.ask run) = opened := by
            rw [afterShared, hopen, Option.getD_some]
          refine ⟨[.ask run, .atSlots 0 (.enter w)], ?_, by simp⟩
          rw [afterAllShared, List.foldl_cons, hask]
          obtain ⟨limit, rooms⟩ := opened
          cases rooms with
          | nil => rfl
          | cons room rooms => rfl
    | leave w => cases hasks
    | cancel w => cases hasks
    | takeUp w => cases hasks

/-- The limit is `n`, and all slots that have been handed out are sound. -/
structure AllSound (n : Nat) (l : Limiter ω) : Prop where
  limit : l.limit = some (n : Int)
  sound : ∀ room ∈ l.rooms, room.2.Sound (some n)

omit [DecidableEq ω] in
theorem allSound_ofLimit (n : Nat) : (ofLimit (some n) : Limiter ω).AllSound n :=
  ⟨rfl, nofun⟩

theorem AllSound.afterShared (h : l.AllSound n) (e : SharedEvent ω) :
    (l.afterShared e).AllSound n := by
  cases e with
  | ask run =>
    rw [Limiter.afterShared, open?_eq h.limit, Option.getD_some]
    split
    · exact h
    · exact ⟨h.limit, List.forall_mem_cons.mpr ⟨Slots.sound_ofLimit (some n), h.sound⟩⟩
  | atSlots i e =>
    refine ⟨h.limit, fun room hroom => ?_⟩
    obtain ⟨j, hj⟩ := List.mem_iff_getElem?.mp hroom
    rw [Limiter.afterShared, updateAt, List.getElem?_modify] at hj
    obtain ⟨old, hold, rfl⟩ := Option.map_eq_some_iff.mp hj
    have hsound := h.sound old (List.mem_of_getElem? hold)
    split
    · exact hsound.after e
    · exact hsound

theorem AllSound.afterAllShared (h : l.AllSound n) (events : List (SharedEvent ω)) :
    (l.afterAllShared events).AllSound n := by
  induction events generalizing l with
  | nil => exact h
  | cons e events ih => exact ih (h.afterShared e)

/-- A run has been given new slots as often as it asked when it was not the last to ask. -/
theorem AllSound.count_owners (h : l.AllSound n) (events : List (SharedEvent ω)) (run : Nat) :
    (l.afterAllShared events).owners.count run =
      l.owners.count run + turns run l.owners.head? (callers events) := by
  induction events generalizing l with
  | nil => rfl
  | cons e events ih =>
    have hlater := ih (h.afterShared e)
    rw [Limiter.afterAllShared, List.foldl_cons, ← Limiter.afterAllShared, hlater]
    cases e with
    | ask caller =>
      rw [callers_cons_ask, Limiter.afterShared, open?_eq h.limit, Option.getD_some]
      by_cases hlast : l.owners.head? = some caller
      · rw [if_pos hlast, turns_cons_of_eq hlast, hlast]
      · rw [if_neg hlast, turns_cons_of_ne hlast, ← Nat.add_assoc]
        simp [owners, List.count_cons]
    | atSlots i e =>
      rw [callers_cons_atSlots, Limiter.afterShared, owners_updateAt]

omit [DecidableEq ω] in
theorem AllSound.length_inside_le (h : l.AllSound n) (run : Nat) :
    (l.inside run).length ≤ n * l.owners.count run := by
  have hrooms : (l.rooms.filter (·.1 = run)).length = l.owners.count run := by
    rw [owners, List.count_eq_countP, List.countP_map, List.countP_eq_length_filter]
    rfl
  have hbound : ∀ k ∈ (l.rooms.filter (·.1 = run)).map (·.2.inside.length), k ≤ n := by
    intro k hk
    obtain ⟨room, hroom, rfl⟩ := List.mem_map.mp hk
    exact (h.sound room (List.mem_filter.mp hroom).1).isKept.bounded
  have hsum := List.sum_le_card_nsmul _ n hbound
  rw [List.length_map, hrooms, smul_eq_mul, Nat.mul_comm] at hsum
  rw [inside, List.length_flatMap]
  exact hsum

/-- What happens at the latest slots leaves all others as they are. -/
theorem afterAllShared_latest (limit : Option Int) (caller : Nat) (s : Slots ω)
    (rest : List (Nat × Slots ω)) (events : List (SlotEvent ω)) :
    (⟨limit, (caller, s) :: rest⟩ : Limiter ω).afterAllShared (events.map (.atSlots 0)) =
      ⟨limit, (caller, s.afterAll events) :: rest⟩ := by
  induction events generalizing s with
  | nil => rfl
  | cons e events ih => exact ih (s.after e)

omit [DecidableEq ω] in
theorem inside_cons (limit : Option Int) (caller : Nat) (s : Slots ω)
    (rest : List (Nat × Slots ω)) (run : Nat) :
    (⟨limit, (caller, s) :: rest⟩ : Limiter ω).inside run =
      (if caller = run then s.inside else []) ++ (⟨limit, rest⟩ : Limiter ω).inside run := by
  by_cases hcaller : caller = run
  · simp [inside, hcaller]
  · simp [inside, hcaller]

/-- As many newcomers as there are new slots all go inside. -/
theorem afterAllShared_fill (limit : Option Int) (caller : Nat) (rest : List (Nat × Slots ω))
    {newcomers : List ω} (hnew : newcomers.Nodup) :
    (⟨limit, (caller, .ofLimit (some newcomers.length)) :: rest⟩ : Limiter ω).afterAllShared
        ((newcomers.map .enter).map (.atSlots 0)) =
      ⟨limit, (caller, ⟨some 0, newcomers, []⟩) :: rest⟩ := by
  have hslots : (Slots.ofLimit (some newcomers.length)).afterAll (newcomers.map .enter) =
      ⟨some 0, newcomers, []⟩ := by
    have henter := Slots.afterAll_enter 0 (List.nil_append newcomers ▸ hnew)
    rw [Nat.zero_add, List.nil_append] at henter
    exact henter
  rw [afterAllShared_latest, hslots]

/-- Those of a run who are inside are different ones, with numbers below `next`. -/
structure IsNumbered (l : Limiter Nat) (run next : Nat) : Prop where
  lt : ∀ w ∈ l.inside run, w < next
  nodup : (l.inside run).Nodup

/-- The limiter after as many newcomers as there are new slots have come in. -/
def filled (l : Limiter Nat) (caller : Nat) (newcomers : List Nat) : Limiter Nat :=
  { l with rooms := (caller, ⟨some 0, newcomers, []⟩) :: l.rooms }

theorem inside_filled (l : Limiter Nat) (caller : Nat) (newcomers : List Nat) (run : Nat) :
    (l.filled caller newcomers).inside run =
      (if caller = run then newcomers else []) ++ l.inside run :=
  inside_cons l.limit caller _ l.rooms run

theorem IsNumbered.filled {l : Limiter Nat} {run next : Nat} (h : l.IsNumbered run next)
    (caller n : Nat) : (l.filled caller (List.range' next n)).IsNumbered run (next + n) where
  lt := by
    intro w hw
    rw [inside_filled] at hw
    obtain hnew | hold := List.mem_append.mp hw
    · split at hnew
      · exact (List.mem_range'_1.mp hnew).2
      · cases hnew
    · exact Nat.lt_add_right n (h.lt w hold)
  nodup := by
    rw [inside_filled]
    split
    · refine List.nodup_append.mpr ⟨List.nodup_range', h.nodup, ?_⟩
      intro w hnew v hold
      have hge := (List.mem_range'_1.mp hnew).1
      have hlt := h.lt v hold
      omega
    · exact h.nodup

/-- A run that is given new slots can have all of them taken, while who is inside stays. -/
theorem IsNumbered.exists_inside {n : Nat} {l : Limiter Nat} {run next : Nat}
    (h : l.IsNumbered run next) (hlimit : l.limit = some (n : Int)) (calls : List Nat) :
    ∃ events, callers events = calls ∧ ((l.afterAllShared events).inside run).Nodup ∧
      ((l.afterAllShared events).inside run).length =
        (l.inside run).length + n * turns run l.owners.head? calls := by
  induction calls generalizing l next with
  | nil => exact ⟨[], rfl, h.nodup, rfl⟩
  | cons caller calls ih =>
    have hask : l.afterShared (.ask caller) = if l.owners.head? = some caller then l
        else { l with rooms := (caller, .ofLimit (some n)) :: l.rooms } := by
      rw [afterShared, open?_eq hlimit, Option.getD_some]
    by_cases hlast : l.owners.head? = some caller
    · obtain ⟨events, rfl, honce, hlength⟩ := ih h hlimit
      rw [if_pos hlast] at hask
      refine ⟨.ask caller :: events, rfl, ?_⟩
      rw [turns_cons_of_eq hlast, afterAllShared, List.foldl_cons, hask, ← afterAllShared]
      rw [hlast] at hlength
      exact ⟨honce, hlength⟩
    · rw [if_neg hlast] at hask
      have hfill : (l.afterShared (.ask caller)).afterAllShared
          (((List.range' next n).map .enter).map (.atSlots 0)) =
            l.filled caller (List.range' next n) := by
        have hslots := afterAllShared_fill l.limit caller l.rooms
          (List.nodup_range' : (List.range' next n).Nodup)
        rw [List.length_range'] at hslots
        rw [hask]
        exact hslots
      obtain ⟨events, rfl, honce, hlength⟩ := ih (h.filled caller n) hlimit
      have howners : (l.filled caller (List.range' next n)).owners.head? = some caller := rfl
      have hnew : (if caller = run then List.range' next n else []).length =
          n * if caller = run then 1 else 0 := by
        split
        · rw [List.length_range', Nat.mul_one]
        · rfl
      refine ⟨.ask caller :: (((List.range' next n).map .enter).map (.atSlots 0) ++ events), ?_, ?_⟩
      · rw [callers_cons_ask, callers_append, callers_map_atSlots, List.nil_append]
      · rw [afterAllShared, List.foldl_cons, ← afterAllShared, afterAllShared_append, hfill]
        refine ⟨honce, ?_⟩
        rw [hlength, inside_filled, List.length_append, hnew, howners, turns_cons_of_ne hlast,
          Nat.mul_add]
        omega

/-- Of a run, `ws` are inside after some interleaving in which the runs ask in the given order. -/
def CanBeInside (n : Nat) (calls : List Nat) (run : Nat) (ws : List Nat) : Prop :=
  ∃ events : List (SharedEvent Nat), callers events = calls ∧
    ((ofLimit (some n)).afterAllShared events).inside run = ws

theorem CanBeInside.length_le {n : Nat} {calls : List Nat} {run : Nat} {ws : List Nat}
    (h : CanBeInside n calls run ws) : ws.length ≤ n * turns run none calls := by
  obtain ⟨events, rfl, rfl⟩ := h
  have hsound := allSound_ofLimit (ω := Nat) n
  have hcount := hsound.count_owners events run
  have hlength := (hsound.afterAllShared events).length_inside_le run
  rw [hcount] at hlength
  simpa [owners, ofLimit] using hlength

theorem exists_canBeInside (n : Nat) (calls : List Nat) (run : Nat) :
    ∃ ws, CanBeInside n calls run ws ∧ ws.Nodup ∧ ws.length = n * turns run none calls := by
  have hempty : (ofLimit (some n) : Limiter Nat).IsNumbered run 0 := ⟨nofun, List.nodup_nil⟩
  obtain ⟨events, hcalls, honce, hlength⟩ := hempty.exists_inside rfl calls
  refine ⟨_, ⟨events, hcalls, rfl⟩, honce, ?_⟩
  simpa [owners, inside, ofLimit] using hlength

/-- The ceiling of a limiter holds for a run where no other run asks between the first and the last
time that it asks itself, and only there: each time a run asks again after another one, as many as
the limit can come in besides those who are inside already. -/
theorem canBeInside_length_le_iff {n : Nat} (hn : 0 < n) (calls : List Nat) (run : Nat) :
    (∀ ws, CanBeInside n calls run ws → ws.length ≤ n * turns run none calls) ∧
      (∃ ws, CanBeInside n calls run ws ∧ ws.Nodup ∧ ws.length = n * turns run none calls) ∧
      ((∀ ws, CanBeInside n calls run ws → ws.length ≤ n) ↔ turns run none calls ≤ 1) := by
  refine ⟨fun ws => CanBeInside.length_le, exists_canBeInside n calls run, ?_, ?_⟩
  · intro hceiling
    obtain ⟨ws, hws, _, hlength⟩ := exists_canBeInside n calls run
    have hle := hceiling ws hws
    rw [hlength] at hle
    exact Nat.le_of_mul_le_mul_left (hle.trans_eq (Nat.mul_one n).symm) hn
  · intro hturns ws hws
    calc ws.length
      _ ≤ n * turns run none calls := hws.length_le
      _ ≤ n * 1 := Nat.mul_le_mul_left n hturns
      _ = n := Nat.mul_one n

theorem canBeInside_oneSlot :
    (∃ ws, CanBeInside 1 [0, 1, 0] 0 ws ∧ ws.Nodup ∧ ws.length = 2) ∧
      ∀ ws, CanBeInside 1 [0, 0, 1] 0 ws → ws.length ≤ 1 := by
  obtain ⟨_, hreturning, _⟩ := canBeInside_length_le_iff Nat.one_pos [0, 1, 0] 0
  obtain ⟨_, _, honce⟩ := canBeInside_length_le_iff Nat.one_pos [0, 0, 1] 0
  exact ⟨hreturning, honce.mpr (by decide)⟩

/-- Two of the first run come in, one before and one after someone of another run. -/
def returning : List (SharedEvent Nat) :=
  [.ask 0, .atSlots 0 (.enter 1), .ask 1, .atSlots 0 (.enter 2), .ask 0, .atSlots 0 (.enter 3)]

theorem not_length_inside_returning_le :
    (ofLimit (some 1)).afterAllShared returning =
        (((ofLimit (some 1)).enter 0 1).enter 1 2).enter 0 3 ∧
      ¬ (((ofLimit (some 1)).afterAllShared returning).inside 0).length ≤ 1 := by
  decide

end Limiter

end TypeAtlas.Concurrency
