import TypeAtlas.Proofs.Slots.Claims

namespace TypeAtlas.Concurrency.Slots

variable {ω : Type}

/-- How many in line own a slot already. -/
def owed (line : List (ω × Turn)) : Nat :=
  (line.filter (·.2 ≠ .waiting)).length

@[simp] theorem owed_nil : owed ([] : List (ω × Turn)) = 0 := rfl

@[simp] theorem owed_append (line rest : List (ω × Turn)) :
    owed (line ++ rest) = owed line + owed rest := by
  simp [owed]

@[simp] theorem owed_cons_waiting (w : ω) (line : List (ω × Turn)) :
    owed ((w, .waiting) :: line) = owed line := rfl

@[simp] theorem owed_cons_called (w : ω) (line : List (ω × Turn)) :
    owed ((w, .called) :: line) = owed line + 1 := rfl

@[simp] theorem owed_cons_calledOff (w : ω) (line : List (ω × Turn)) :
    owed ((w, .calledOff) :: line) = owed line + 1 := rfl

theorem owed_pos_of_owner {w : ω} {turn : Turn} (h : turn ≠ .waiting)
    (pre post : List (ω × Turn)) : 0 < owed (pre ++ (w, turn) :: post) := by
  have hentry : (w, turn) ∈ pre ++ (w, turn) :: post :=
    List.mem_append_right pre List.mem_cons_self
  exact List.length_pos_of_mem (List.mem_filter.mpr ⟨hentry, by simpa using h⟩)

/-- Whoever stands in line waits or owns a slot. -/
theorem exists_waiting_or_owed_pos {line : List (ω × Turn)} (h : line ≠ []) :
    (∃ entry ∈ line, entry.2 = .waiting) ∨ 0 < owed line := by
  cases line with
  | nil => exact absurd rfl h
  | cons entry line =>
    obtain ⟨w, turn⟩ := entry
    cases turn with
    | waiting => exact .inl ⟨_, List.mem_cons_self, rfl⟩
    | called => exact .inr (by simp)
    | calledOff => exact .inr (by simp)

/-- The slots of a limit, as far as numbers go: nobody is counted twice, and every slot is free, in
use or on its way to someone. -/
structure Counted (limit : Option Nat) (s : Slots ω) : Prop where
  once : s.IsOnce
  total : s.free.map (· + s.inside.length + owed s.line) = limit
  unlimited : s.free = none → s.line = []

/-- Besides, nobody waits while a slot is free, unless a slot is on its way to someone, who will
look after the next in line. -/
structure Sound (limit : Option Nat) (s : Slots ω) : Prop extends Counted limit s where
  served : (∃ entry ∈ s.line, entry.2 = .waiting) → s.free = some 0 ∨ 0 < owed s.line

theorem sound_ofLimit (limit : Option Nat) : (ofLimit limit : Slots ω).Sound limit where
  once := List.nodup_nil
  total := by cases limit <;> rfl
  unlimited _ := rfl
  served h := by
    obtain ⟨_, hmem, _⟩ := h
    cases hmem

/-- Who gives a free slot to the next in line leaves nobody unserved. -/
theorem Counted.callNext {limit : Option Nat} {s : Slots ω} (h : s.Counted limit) :
    s.callNext.Sound limit := by
  unfold Slots.callNext
  split
  · rename_i n line hfree hcall
    obtain ⟨pre, w, post, hline, rfl, _⟩ := callFirst?_eq_some hcall
    refine { once := ?_, total := ?_, unlimited := by simp, served := fun _ => .inr ?_ }
    · have honce := h.once
      simp only [IsOnce, waiting, hline] at honce
      simpa [IsOnce, waiting] using honce
    · have htotal := h.total
      simp only [hfree, hline, Option.map_some] at htotal
      rw [← htotal]
      simp
      omega
    · exact owed_pos_of_owner (by decide) pre post
  · rename_i hnone
    refine { h with served := ?_ }
    rintro ⟨entry, hentry, hwaiting⟩
    cases hfree : s.free with
    | none =>
      rw [h.unlimited hfree] at hentry
      cases hentry
    | some n =>
      cases n with
      | zero => exact .inl rfl
      | succ n =>
        cases hcall : callFirst? s.line with
        | none => exact absurd hwaiting (callFirst?_eq_none_iff.mp hcall entry hentry)
        | some line => exact absurd hcall (hnone n line hfree)

/-- A newcomer takes a free slot where nobody is in line. -/
theorem Counted.goIn {limit : Option Nat} {s : Slots ω} (h : s.Counted limit) {w : ω}
    (hw : w ∉ s.inside) (hfree : s.hasFree = true) (hline : s.line = []) :
    ({ s with free := s.free.map (· - 1), inside := s.inside ++ [w] } : Slots ω).Sound limit := by
  refine { once := ?_, total := ?_, unlimited := fun _ => hline, served := ?_ }
  · have honce := h.once
    simp only [IsOnce, waiting, hline, List.map_nil, List.append_nil] at honce ⊢
    have hnew : ∀ v ∈ s.inside, v ≠ w := fun v hv => ne_of_mem_of_not_mem hv hw
    exact List.nodup_append.mpr ⟨honce, by simp, by simpa using hnew⟩
  · rw [← h.total]
    cases hs : s.free with
    | none => rfl
    | some n =>
      have hpos : n ≠ 0 := by
        rintro rfl
        simp [hasFree, hs] at hfree
      simp
      omega
  · rintro ⟨entry, hentry, _⟩
    rw [hline] at hentry
    cases hentry

variable [DecidableEq ω]

/-- A newcomer goes to the end of the line where there is one, or where no slot is free. -/
theorem Sound.lineUp {limit : Option Nat} {s : Slots ω} (h : s.Sound limit) {w : ω}
    (hw : s.claim w = .none) (hfull : s.hasFree = true → s.line ≠ []) :
    ({ s with line := s.line ++ [(w, .waiting)] } : Slots ω).Sound limit := by
  obtain ⟨hinside, hturn⟩ := claim_eq_none_iff.mp hw
  refine { once := ?_, total := ?_, unlimited := ?_, served := fun _ => ?_ }
  · have honce := h.once
    simp only [IsOnce, waiting, List.map_append, List.map_cons, List.map_nil, ← List.append_assoc]
      at honce ⊢
    refine List.nodup_append.mpr ⟨honce, by simp, ?_⟩
    have hnew : w ∉ s.inside ++ s.line.map (·.1) := by
      simpa [List.mem_append, not_or] using ⟨hinside, by simpa using turn?_eq_none_iff.mp hturn⟩
    simpa using fun v hv => ne_of_mem_of_not_mem hv hnew
  · rw [← h.total]
    simp
  · intro hfree
    exact absurd (h.unlimited hfree) (hfull (by simp [hasFree, show s.free = none from hfree]))
  · by_cases hfree : s.hasFree = true
    · rcases exists_waiting_or_owed_pos (hfull hfree) with hwaits | howed
      · simpa using h.served hwaits
      · exact .inr (by simpa using howed)
    · exact .inl (by simpa [hasFree] using hfree)

theorem Sound.enter {limit : Option Nat} {s : Slots ω} (h : s.Sound limit) (w : ω) :
    (s.enter w).Sound limit := by
  unfold Slots.enter
  cases hpresent : s.isPresent w with
  | true => simpa using h
  | false =>
    have hclaim := isPresent_eq_false_iff.mp hpresent
    by_cases hroom : (s.hasFree && s.line.isEmpty) = true
    · obtain ⟨hfree, hline⟩ := Bool.and_eq_true_iff.mp hroom
      simpa [hroom] using
        h.goIn (claim_eq_none_iff.mp hclaim).1 hfree (List.isEmpty_iff.mp hline)
    · have hfull : s.hasFree = true → s.line ≠ [] := fun hfree hline => by
        simp [hfree, hline] at hroom
      simpa [hroom] using h.lineUp hclaim hfull

theorem Sound.leave {limit : Option Nat} {s : Slots ω} (h : s.Sound limit) (w : ω) :
    (s.leave w).Sound limit := by
  unfold Slots.leave
  by_cases hw : w ∈ s.inside
  · rw [if_pos (by simpa using hw)]
    refine Counted.callNext { once := ?_, total := ?_, unlimited := ?_ }
    · exact h.once.sublist (List.erase_sublist.append_right _)
    · have hlength := List.length_erase_of_mem hw
      have hpos := List.length_pos_of_mem hw
      rw [← h.total]
      cases s.free with
      | none => rfl
      | some n =>
        simp only [Option.map_some, hlength]
        congr 1
        omega
    · intro hfree
      exact h.unlimited (by simpa using hfree)
  · rw [if_neg (by simpa using hw)]
    exact h

theorem Sound.takeUp {limit : Option Nat} {s : Slots ω} (h : s.Sound limit) (w : ω) :
    (s.takeUp w).Sound limit := by
  by_cases hcalled : turn? s.line w = some .called
  · obtain ⟨pre, post, hline, hothers⟩ := exists_split_of_turn? h.once.line hcalled
    have honce := h.once
    have htotal := h.total
    simp only [IsOnce, waiting, hline, List.map_append, List.map_cons] at honce
    rw [takeUp_of_called hcalled]
    simp only [hline, filter_ne_of_split hothers]
    refine Counted.callNext { once := ?_, total := ?_, unlimited := ?_ }
    · simp only [IsOnce, waiting, List.map_append]
      refine (List.Perm.nodup_iff ?_).mp honce
      simp only [List.append_assoc, List.singleton_append]
      exact List.Perm.append_left _ List.perm_middle
    · rw [← htotal]
      simp only [hline, owed_append, owed_cons_called, List.length_append, List.length_cons,
        List.length_nil]
      cases s.free with
      | none => rfl
      | some n =>
        simp only [Option.map_some]
        congr 1
        omega
    · intro hfree
      have hnil := h.unlimited hfree
      simp [hline] at hnil
  · by_cases hoff : turn? s.line w = some .calledOff
    · obtain ⟨pre, post, hline, hothers⟩ := exists_split_of_turn? h.once.line hoff
      have honce := h.once
      have htotal := h.total
      simp only [IsOnce, waiting, hline, List.map_append, List.map_cons] at honce
      rw [takeUp_of_calledOff hoff]
      simp only [hline, filter_ne_of_split hothers]
      refine Counted.callNext { once := ?_, total := ?_, unlimited := ?_ }
      · simp only [IsOnce, waiting, List.map_append]
        exact honce.sublist
          ((List.Sublist.append_left (List.sublist_cons_self _ _) _).append_left _)
      · rw [← htotal]
        simp only [hline, owed_append, owed_cons_calledOff]
        cases s.free with
        | none => rfl
        | some n =>
          simp only [Option.map_some]
          congr 1
          omega
      · intro hfree
        have hnil := h.unlimited (by simpa using hfree)
        simp [hline] at hnil
    · rw [takeUp_eq_self hcalled hoff]
      exact h

theorem Sound.callOff {limit : Option Nat} {s : Slots ω} (h : s.Sound limit) (w : ω) :
    (s.callOff w).Sound limit := by
  cases hturn : turn? s.line w with
  | none =>
    rw [callOff_of_absent hturn]
    exact h
  | some t =>
    obtain ⟨pre, post, hline, hothers⟩ := exists_split_of_turn? h.once.line hturn
    have honce := h.once
    have htotal := h.total
    have hunlimited : s.free ≠ none := fun hfree => by
      have hnil := h.unlimited hfree
      simp [hline] at hnil
    simp only [IsOnce, waiting, hline, List.map_append, List.map_cons] at honce
    by_cases ht : t = .waiting
    · subst ht
      rw [callOff_of_waiting hline hothers]
      refine { once := ?_, total := ?_, unlimited := fun hfree => absurd hfree hunlimited,
               served := fun _ => ?_ }
      · simp only [IsOnce, waiting, List.map_append]
        exact honce.sublist
          ((List.Sublist.append_left (List.sublist_cons_self _ _) _).append_left _)
      · rw [← htotal, hline]
        simp
      · have hserved := h.served ⟨(w, .waiting), by simp [hline], rfl⟩
        simpa [hline] using hserved
    · rw [callOff_of_owner ht hline hothers]
      have howed : owed (pre ++ (w, .calledOff) :: post) = owed s.line := by
        cases t <;> simp [hline] at ht ⊢
      refine { once := ?_, total := ?_, unlimited := fun hfree => absurd hfree hunlimited,
               served := fun _ => ?_ }
      · simpa only [IsOnce, waiting, List.map_append, List.map_cons] using honce
      · rw [← htotal, howed]
      · exact .inr (owed_pos_of_owner (by decide) pre post)

/-- Where someone waits, a slot is in use or on its way to someone, if there are slots at all. -/
theorem Sound.exists_owner_of_waiting {limit : Option Nat} {s : Slots ω} (h : s.Sound limit)
    (hlimit : limit ≠ some 0) {w : ω} (hw : s.claim w = .inLine .waiting) :
    ∃ v, s.claim v = .inside ∨ s.claim v = .inLine .called ∨ s.claim v = .inLine .calledOff := by
  have hmem := mem_of_turn? (claim_eq_inLine_iff.mp hw).2
  by_cases howed : 0 < owed s.line
  · obtain ⟨⟨v, t⟩, hentry⟩ := List.exists_mem_of_length_pos howed
    obtain ⟨hline, ht⟩ := List.mem_filter.mp hentry
    have hturn := turn?_of_mem h.once.line hline
    have hinside : v ∉ s.inside := fun hin => by
      rw [h.once.not_mem_line hin] at hturn
      cases hturn
    have hclaim := claim_eq_inLine_iff.mpr ⟨hinside, hturn⟩
    cases t with
    | waiting => simp at ht
    | called => exact ⟨v, .inr (.inl hclaim)⟩
    | calledOff => exact ⟨v, .inr (.inr hclaim)⟩
  · obtain hfree | hpos := h.served ⟨_, hmem, rfl⟩
    · have htotal := h.total
      rw [hfree, Option.map_some] at htotal
      have hpos : 0 < s.inside.length := by
        by_contra hzero
        refine hlimit (htotal.symm.trans (congrArg some ?_))
        omega
      obtain ⟨v, hv⟩ := List.exists_mem_of_length_pos hpos
      exact ⟨v, .inl (claim_eq_inside_iff.mpr hv)⟩
    · exact absurd hpos howed

end TypeAtlas.Concurrency.Slots
