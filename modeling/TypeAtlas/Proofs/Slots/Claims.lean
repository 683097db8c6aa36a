import Mathlib.Data.List.Nodup
import TypeAtlas.Concurrency.Slots

namespace TypeAtlas.Concurrency

/-- How someone's claim to a slot stands. -/
inductive Claim
  | none
  | inLine (turn : Turn)
  | inside
  deriving DecidableEq, Repr

namespace Claim

/-- Others can only bring it about that someone who waits is called. -/
def Advances (before after : Claim) : Prop :=
  after = before ∨ before = .inLine .waiting ∧ after = .inLine .called

@[simp] theorem Advances.refl (c : Claim) : Advances c c := .inl rfl

/-- What is left of a claim of someone who is told to give up. -/
def afterCallOff : Claim → Claim
  | .none | .inLine .waiting => .none
  | .inLine _ => .inLine .calledOff
  | .inside => .inside

end Claim

namespace Slots

variable {ω : Type}

/-- Calling the first who waits calls nobody else. -/
theorem callFirst?_eq_some {line called : List (ω × Turn)} (h : callFirst? line = some called) :
    ∃ pre w post, line = pre ++ (w, .waiting) :: post ∧ called = pre ++ (w, .called) :: post ∧
      ∀ entry ∈ pre, entry.2 ≠ .waiting := by
  induction line generalizing called with
  | nil => cases h
  | cons entry line ih =>
    obtain ⟨w, turn⟩ := entry
    cases turn with
    | waiting =>
      obtain rfl := Option.some.inj h
      exact ⟨[], w, line, rfl, rfl, by simp⟩
    | called =>
      obtain ⟨rest, hrest, rfl⟩ := Option.map_eq_some_iff.mp h
      obtain ⟨pre, v, post, rfl, rfl, hpre⟩ := ih hrest
      exact ⟨(w, .called) :: pre, v, post, rfl, rfl, by simpa using hpre⟩
    | calledOff =>
      obtain ⟨rest, hrest, rfl⟩ := Option.map_eq_some_iff.mp h
      obtain ⟨pre, v, post, rfl, rfl, hpre⟩ := ih hrest
      exact ⟨(w, .calledOff) :: pre, v, post, rfl, rfl, by simpa using hpre⟩

theorem callFirst?_eq_none_iff {line : List (ω × Turn)} :
    callFirst? line = none ↔ ∀ entry ∈ line, entry.2 ≠ .waiting := by
  induction line with
  | nil => simp [callFirst?]
  | cons entry line ih =>
    obtain ⟨w, turn⟩ := entry
    cases turn <;> simp [callFirst?, ih]

/-- Nobody is inside and in line, or twice in either. -/
def IsOnce (s : Slots ω) : Prop :=
  (s.inside ++ s.waiting).Nodup

theorem IsOnce.line {s : Slots ω} (h : s.IsOnce) : (s.line.map (·.1)).Nodup :=
  (List.nodup_append.mp h).2.1

variable [DecidableEq ω]

/-- The turn of someone in line. -/
def turn? (line : List (ω × Turn)) (w : ω) : Option Turn :=
  (line.find? (·.1 = w)).map (·.2)

def claim (s : Slots ω) (w : ω) : Claim :=
  if w ∈ s.inside then .inside else (turn? s.line w).elim .none .inLine

@[simp] theorem turn?_nil (w : ω) : turn? [] w = none := rfl

@[simp] theorem turn?_cons (entry : ω × Turn) (line : List (ω × Turn)) (w : ω) :
    turn? (entry :: line) w = if entry.1 = w then some entry.2 else turn? line w := by
  by_cases h : entry.1 = w <;> simp [turn?, h]

theorem turn?_append (line rest : List (ω × Turn)) (w : ω) :
    turn? (line ++ rest) w = (turn? line w).or (turn? rest w) := by
  induction line with
  | nil => rfl
  | cons entry line ih =>
    rw [List.cons_append, turn?_cons, turn?_cons, ih]
    split <;> rfl

theorem turn?_eq_none_iff {line : List (ω × Turn)} {w : ω} :
    turn? line w = none ↔ w ∉ line.map (·.1) := by
  induction line with
  | nil => simp
  | cons entry line ih =>
    rw [turn?_cons]
    by_cases h : entry.1 = w
    · simp [h]
    · simp [h, ih, Ne.symm h]

theorem mem_of_turn? {line : List (ω × Turn)} {w : ω} {t : Turn} (h : turn? line w = some t) :
    (w, t) ∈ line := by
  induction line with
  | nil => cases h
  | cons entry line ih =>
    rw [turn?_cons] at h
    by_cases hw : entry.1 = w
    · rw [if_pos hw] at h
      obtain ⟨v, turn⟩ := entry
      obtain rfl : v = w := hw
      obtain rfl : turn = t := Option.some.inj h
      exact List.mem_cons_self
    · rw [if_neg hw] at h
      exact List.mem_cons_of_mem entry (ih h)

/-- Where nobody stands in line twice, an entry is a turn. -/
theorem turn?_of_mem {line : List (ω × Turn)} (hnodup : (line.map (·.1)).Nodup) {w : ω} {t : Turn}
    (h : (w, t) ∈ line) : turn? line w = some t := by
  induction line with
  | nil => cases h
  | cons entry line ih =>
    rw [List.map_cons, List.nodup_cons] at hnodup
    rw [turn?_cons]
    rcases List.mem_cons.mp h with rfl | hmem
    · simp
    · have hne : entry.1 ≠ w := by
        rintro rfl
        exact hnodup.1 (List.mem_map.mpr ⟨_, hmem, rfl⟩)
      rw [if_neg hne]
      exact ih hnodup.2 hmem

theorem turn?_filter_self (line : List (ω × Turn)) (w : ω) :
    turn? (line.filter (·.1 ≠ w)) w = none := by
  rw [turn?_eq_none_iff]
  simp

theorem turn?_filter_of_ne (line : List (ω × Turn)) {w v : ω} (h : v ≠ w) :
    turn? (line.filter (·.1 ≠ w)) v = turn? line v := by
  induction line with
  | nil => rfl
  | cons entry line ih =>
    rw [turn?_cons]
    by_cases hw : entry.1 = w
    · have hv : ¬ entry.1 = v := fun heq => h (heq.symm.trans hw)
      rw [List.filter_cons_of_neg (by simpa using hw), ih, if_neg hv]
    · rw [List.filter_cons_of_pos (by simpa using hw), turn?_cons, ih]

/-- Where nobody stands in line twice, who does stands between others. -/
theorem exists_split_of_turn? {line : List (ω × Turn)} (hnodup : (line.map (·.1)).Nodup) {w : ω}
    {t : Turn} (h : turn? line w = some t) :
    ∃ pre post, line = pre ++ (w, t) :: post ∧ ∀ entry ∈ pre ++ post, entry.1 ≠ w := by
  obtain ⟨pre, post, rfl⟩ := List.append_of_mem (mem_of_turn? h)
  refine ⟨pre, post, rfl, fun entry hentry heq => ?_⟩
  rw [List.map_append, List.map_cons, List.nodup_middle, ← List.map_append,
    List.nodup_cons] at hnodup
  exact hnodup.1 (List.mem_map.mpr ⟨entry, hentry, heq⟩)

theorem filter_ne_of_split {pre post : List (ω × Turn)} {w : ω} {t : Turn}
    (h : ∀ entry ∈ pre ++ post, entry.1 ≠ w) :
    (pre ++ (w, t) :: post).filter (·.1 ≠ w) = pre ++ post := by
  have hkeep : (pre ++ post).filter (·.1 ≠ w) = pre ++ post :=
    List.filter_eq_self.mpr fun entry hentry => by simpa using h entry hentry
  rw [List.filter_append, List.filter_cons_of_neg (by simp), ← List.filter_append, hkeep]

theorem claim_eq_inside_iff {s : Slots ω} {w : ω} : s.claim w = .inside ↔ w ∈ s.inside := by
  unfold claim
  by_cases h : w ∈ s.inside
  · simp [h]
  · cases turn? s.line w <;> simp [h]

theorem claim_eq_inLine_iff {s : Slots ω} {w : ω} {t : Turn} :
    s.claim w = .inLine t ↔ w ∉ s.inside ∧ turn? s.line w = some t := by
  unfold claim
  by_cases h : w ∈ s.inside
  · simp [h]
  · cases turn? s.line w <;> simp [h]

theorem claim_eq_none_iff {s : Slots ω} {w : ω} :
    s.claim w = .none ↔ w ∉ s.inside ∧ turn? s.line w = none := by
  unfold claim
  by_cases h : w ∈ s.inside
  · simp [h]
  · cases turn? s.line w <;> simp [h]

theorem IsOnce.not_mem_line {s : Slots ω} (h : s.IsOnce) {w : ω} (hw : w ∈ s.inside) :
    turn? s.line w = none := by
  rw [turn?_eq_none_iff]
  exact fun hline => (List.nodup_append.mp h).2.2 w hw w hline rfl

theorem mem_owners_of_turn? {s : Slots ω} {w : ω} {t : Turn} (h : turn? s.line w = some t)
    (ht : t ≠ .waiting) : w ∈ s.owners :=
  List.mem_map.mpr ⟨(w, t), List.mem_filter.mpr ⟨mem_of_turn? h, by simpa using ht⟩, rfl⟩

theorem not_mem_owners_of_waiting {s : Slots ω} (hs : s.IsOnce) {w : ω}
    (h : s.claim w = .inLine .waiting) : w ∉ s.owners := by
  intro howns
  obtain ⟨⟨v, t⟩, hentry, rfl⟩ := List.mem_map.mp howns
  obtain ⟨hline, ht⟩ := List.mem_filter.mp hentry
  have hturn := turn?_of_mem hs.line hline
  rw [(claim_eq_inLine_iff.mp h).2] at hturn
  obtain rfl := Option.some.inj hturn
  simp at ht

/-- A slot belongs to whoever is inside, and to whoever is in line but waits no longer. -/
theorem mem_inside_or_owners_iff {s : Slots ω} (hs : s.IsOnce) {w : ω} :
    w ∈ s.inside ∨ w ∈ s.owners ↔
      s.claim w = .inside ∨ s.claim w = .inLine .called ∨ s.claim w = .inLine .calledOff := by
  constructor
  · rintro (hin | howns)
    · exact .inl (claim_eq_inside_iff.mpr hin)
    · obtain ⟨⟨v, t⟩, hentry, rfl⟩ := List.mem_map.mp howns
      obtain ⟨hline, ht⟩ := List.mem_filter.mp hentry
      have hturn := turn?_of_mem hs.line hline
      have hout : v ∉ s.inside := fun hin => by simp [hs.not_mem_line hin] at hturn
      cases t with
      | waiting => simp at ht
      | called => exact .inr (.inl (claim_eq_inLine_iff.mpr ⟨hout, hturn⟩))
      | calledOff => exact .inr (.inr (claim_eq_inLine_iff.mpr ⟨hout, hturn⟩))
  · rintro (hin | hcalled | hoff)
    · exact .inl (claim_eq_inside_iff.mp hin)
    · exact .inr (mem_owners_of_turn? (claim_eq_inLine_iff.mp hcalled).2 (by simp))
    · exact .inr (mem_owners_of_turn? (claim_eq_inLine_iff.mp hoff).2 (by simp))

/-- A claim depends only on who is inside, and on the turns in line. -/
theorem claim_congr {s t : Slots ω} {w : ω} (hinside : w ∈ t.inside ↔ w ∈ s.inside)
    (hturn : turn? t.line w = turn? s.line w) : t.claim w = s.claim w := by
  unfold claim
  simp only [hinside, hturn]

theorem claim_callNext (s : Slots ω) (w : ω) : (s.claim w).Advances (s.callNext.claim w) := by
  unfold callNext
  split
  · rename_i n line _ hcall
    obtain ⟨pre, v, post, hline, rfl, _⟩ := callFirst?_eq_some hcall
    by_cases hw : w ∈ s.inside
    · left
      rw [claim_eq_inside_iff.mpr hw]
      exact claim_eq_inside_iff.mpr hw
    · by_cases hpre : turn? pre w = none ∧ v = w
      · obtain ⟨hnone, rfl⟩ := hpre
        refine .inr ⟨claim_eq_inLine_iff.mpr ⟨hw, ?_⟩, claim_eq_inLine_iff.mpr ⟨hw, ?_⟩⟩
        · rw [hline, turn?_append, hnone]
          simp
        · simp [turn?_append, hnone]
      · refine .inl (claim_congr Iff.rfl ?_)
        simp only [hline, turn?_append, turn?_cons]
        cases hturn : turn? pre w with
        | some t => rfl
        | none =>
          have hne : v ≠ w := fun heq => hpre ⟨hturn, heq⟩
          rw [if_neg hne, if_neg hne]
  · exact .refl _

/-- Calling the next changes nothing for anyone who does not wait. -/
theorem claim_callNext_eq {s : Slots ω} {w : ω} {c : Claim} (h : s.claim w = c)
    (hc : c ≠ .inLine .waiting) : s.callNext.claim w = c := by
  obtain heq | ⟨hwaits, _⟩ := claim_callNext s w
  · exact heq.trans h
  · exact absurd (h.symm.trans hwaits) hc

theorem advances_callNext {s t : Slots ω} {w : ω} (h : t.claim w = s.claim w) :
    (s.claim w).Advances (t.callNext.claim w) := by
  rw [← h]
  exact claim_callNext t w

theorem isPresent_eq_false_iff {s : Slots ω} {w : ω} :
    s.isPresent w = false ↔ s.claim w = .none := by
  rw [claim_eq_none_iff, turn?_eq_none_iff]
  simp [isPresent]
  grind

theorem takeUp_of_called {s : Slots ω} {w : ω} (h : turn? s.line w = some .called) :
    s.takeUp w =
      ({ s with
          inside := s.inside ++ [w]
          line := s.line.filter (·.1 ≠ w) } : Slots ω).callNext := by
  obtain ⟨⟨v, turn⟩, hfind, rfl⟩ := Option.map_eq_some_iff.mp h
  simp only [takeUp, hfind]

theorem takeUp_of_calledOff {s : Slots ω} {w : ω} (h : turn? s.line w = some .calledOff) :
    s.takeUp w = ({ s with line := s.line.filter (·.1 ≠ w) } : Slots ω).release := by
  obtain ⟨⟨v, turn⟩, hfind, rfl⟩ := Option.map_eq_some_iff.mp h
  simp only [takeUp, hfind]

/-- Who owns no slot in line has none to take up. -/
theorem takeUp_eq_self {s : Slots ω} {w : ω} (hcalled : turn? s.line w ≠ some .called)
    (hoff : turn? s.line w ≠ some .calledOff) : s.takeUp w = s := by
  cases hfind : s.line.find? (·.1 = w) with
  | none => simp only [takeUp, hfind]
  | some entry =>
    obtain ⟨v, turn⟩ := entry
    cases turn with
    | waiting => simp only [takeUp, hfind]
    | called => exact absurd (by simp [turn?, hfind]) hcalled
    | calledOff => exact absurd (by simp [turn?, hfind]) hoff

/-- Who is told to give up is not seen by the others in line. -/
theorem map_filter_callOff_of_ne {line : List (ω × Turn)} {w : ω}
    (h : ∀ entry ∈ line, entry.1 ≠ w) :
    ((line.filter (· ≠ (w, .waiting))).map fun entry =>
      if entry.1 = w then (w, .calledOff) else entry) = line := by
  have hkeep : line.filter (· ≠ (w, .waiting)) = line := by
    refine List.filter_eq_self.mpr fun entry hentry => ?_
    have hne : entry ≠ (w, .waiting) := fun heq => h entry hentry (congrArg Prod.fst heq)
    simpa using hne
  rw [hkeep]
  refine List.map_congr_left (g := id) (fun entry hentry => ?_) |>.trans (List.map_id line)
  simp [h entry hentry]

theorem callOff_of_absent {s : Slots ω} {w : ω} (h : turn? s.line w = none) : s.callOff w = s := by
  have hothers : ∀ entry ∈ s.line, entry.1 ≠ w := fun entry hentry heq =>
    turn?_eq_none_iff.mp h (List.mem_map.mpr ⟨entry, hentry, heq⟩)
  rw [callOff, map_filter_callOff_of_ne hothers]

theorem callOff_of_waiting {s : Slots ω} {w : ω} {pre post : List (ω × Turn)}
    (hline : s.line = pre ++ (w, .waiting) :: post) (h : ∀ entry ∈ pre ++ post, entry.1 ≠ w) :
    s.callOff w = { s with line := pre ++ post } := by
  have hothers := map_filter_callOff_of_ne h
  rw [List.filter_append] at hothers
  rw [callOff, hline, List.filter_append, List.filter_cons_of_neg (by simp), hothers]

theorem callOff_of_owner {s : Slots ω} {w : ω} {t : Turn} {pre post : List (ω × Turn)}
    (ht : t ≠ .waiting) (hline : s.line = pre ++ (w, t) :: post)
    (h : ∀ entry ∈ pre ++ post, entry.1 ≠ w) :
    s.callOff w = { s with line := pre ++ (w, .calledOff) :: post } := by
  have hpre := map_filter_callOff_of_ne fun entry hentry => h entry (List.mem_append_left _ hentry)
  have hpost :=
    map_filter_callOff_of_ne fun entry hentry => h entry (List.mem_append_right _ hentry)
  rw [callOff, hline, List.filter_append, List.filter_cons_of_pos (by simpa using ht),
    List.map_append, List.map_cons, hpre, hpost, if_pos rfl]

theorem claim_enter_self {s : Slots ω} {w : ω} (h : s.claim w = .none) :
    (s.enter w).claim w = .inside ∨ (s.enter w).claim w = .inLine .waiting := by
  obtain ⟨hinside, hturn⟩ := claim_eq_none_iff.mp h
  unfold enter
  rw [if_neg (by simp [isPresent_eq_false_iff.mpr h])]
  by_cases hroom : (s.hasFree && s.line.isEmpty) = true
  · rw [if_pos hroom]
    exact .inl (claim_eq_inside_iff.mpr (by simp))
  · rw [if_neg hroom]
    exact .inr (claim_eq_inLine_iff.mpr ⟨hinside, by simp [turn?_append, hturn]⟩)

theorem claim_enter_of_ne (s : Slots ω) {w v : ω} (h : v ≠ w) :
    (s.enter w).claim v = s.claim v := by
  unfold enter
  split
  · rfl
  · split
    · exact claim_congr (by simp [h]) rfl
    · refine claim_congr Iff.rfl ?_
      rw [turn?_append, turn?_cons, if_neg (Ne.symm h)]
      cases turn? s.line v <;> rfl

theorem claim_leave_self {s : Slots ω} (hs : s.IsOnce) {w : ω} (h : w ∈ s.inside) :
    (s.leave w).claim w = .none := by
  have hnot : w ∉ s.inside.erase w := (List.nodup_append.mp hs).1.not_mem_erase
  unfold leave
  rw [if_pos (by simpa using h), release]
  exact claim_callNext_eq (claim_eq_none_iff.mpr ⟨hnot, hs.not_mem_line h⟩) (by decide)

theorem claim_leave_of_ne (s : Slots ω) {w v : ω} (h : v ≠ w) :
    (s.claim v).Advances ((s.leave w).claim v) := by
  unfold leave
  split
  · exact advances_callNext (claim_congr (List.mem_erase_of_ne h) rfl)
  · exact .refl _

theorem claim_takeUp_called {s : Slots ω} {w : ω} (h : s.claim w = .inLine .called) :
    (s.takeUp w).claim w = .inside := by
  obtain ⟨_, hturn⟩ := claim_eq_inLine_iff.mp h
  rw [takeUp_of_called hturn]
  exact claim_callNext_eq (claim_eq_inside_iff.mpr (by simp)) (by decide)

theorem claim_takeUp_calledOff {s : Slots ω} {w : ω} (h : s.claim w = .inLine .calledOff) :
    (s.takeUp w).claim w = .none := by
  obtain ⟨hinside, hturn⟩ := claim_eq_inLine_iff.mp h
  rw [takeUp_of_calledOff hturn, release]
  exact claim_callNext_eq (claim_eq_none_iff.mpr ⟨hinside, turn?_filter_self _ _⟩) (by decide)

theorem claim_takeUp_of_ne (s : Slots ω) {w v : ω} (h : v ≠ w) :
    (s.claim v).Advances ((s.takeUp w).claim v) := by
  by_cases hcalled : turn? s.line w = some .called
  · rw [takeUp_of_called hcalled]
    exact advances_callNext (claim_congr (by simp [h]) (turn?_filter_of_ne _ h))
  · by_cases hoff : turn? s.line w = some .calledOff
    · rw [takeUp_of_calledOff hoff]
      exact advances_callNext (claim_congr Iff.rfl (turn?_filter_of_ne _ h))
    · rw [takeUp_eq_self hcalled hoff]
      exact .refl _

theorem claim_callOff_self {s : Slots ω} (hs : s.IsOnce) (w : ω) :
    (s.callOff w).claim w = (s.claim w).afterCallOff := by
  by_cases hinside : w ∈ s.inside
  · rw [claim_eq_inside_iff.mpr hinside]
    exact claim_eq_inside_iff.mpr hinside
  cases hturn : turn? s.line w with
  | none =>
    rw [callOff_of_absent hturn, claim_eq_none_iff.mpr ⟨hinside, hturn⟩]
    rfl
  | some t =>
    obtain ⟨pre, post, hline, hothers⟩ := exists_split_of_turn? hs.line hturn
    have hpre : turn? pre w = none := turn?_eq_none_iff.mpr fun hmem => by
      obtain ⟨entry, hentry, heq⟩ := List.mem_map.mp hmem
      exact hothers entry (List.mem_append_left _ hentry) heq
    rw [claim_eq_inLine_iff.mpr ⟨hinside, hturn⟩]
    by_cases ht : t = .waiting
    · subst ht
      rw [callOff_of_waiting hline hothers]
      refine claim_eq_none_iff.mpr ⟨hinside, turn?_eq_none_iff.mpr fun hmem => ?_⟩
      obtain ⟨entry, hentry, heq⟩ := List.mem_map.mp hmem
      exact hothers entry hentry heq
    · rw [callOff_of_owner ht hline hothers]
      have hoff : Claim.afterCallOff (.inLine t) = .inLine .calledOff := by
        cases t <;> first | exact absurd rfl ht | rfl
      rw [hoff]
      exact claim_eq_inLine_iff.mpr ⟨hinside, by simp [turn?_append, hpre]⟩

theorem claim_callOff_of_ne {s : Slots ω} (hs : s.IsOnce) {w v : ω} (h : v ≠ w) :
    (s.callOff w).claim v = s.claim v := by
  cases hturn : turn? s.line w with
  | none => rw [callOff_of_absent hturn]
  | some t =>
    obtain ⟨pre, post, hline, hothers⟩ := exists_split_of_turn? hs.line hturn
    by_cases ht : t = .waiting
    · subst ht
      rw [callOff_of_waiting hline hothers]
      refine claim_congr Iff.rfl ?_
      simp only [hline, turn?_append, turn?_cons, if_neg (Ne.symm h)]
    · rw [callOff_of_owner ht hline hothers]
      refine claim_congr Iff.rfl ?_
      simp only [hline, turn?_append, turn?_cons, if_neg (Ne.symm h)]

end Slots

end TypeAtlas.Concurrency
