import Mathlib.Data.List.Basic
import TypeAtlas.Proofs.Except
import TypeAtlas.Text.Utf8

namespace TypeAtlas.Text

/-- What a unit is decoded to. -/
def Utf8Unit.decoded : Utf8Unit → Nat
  | .point c _ => c
  | .broken _ _ => 0xFFFD

/-- Bytes are decoded unit by unit. -/
theorem decodeLossy_cons (b : UInt8) (bs : List UInt8) :
    decodeLossy (b :: bs) =
      (utf8Unit b bs).decoded :: decodeLossyFrom ((utf8Unit b bs).length - 1) bs := by
  rw [decodeLossy, decodeLossyFrom]
  cases utf8Unit b bs <;> rfl

theorem decodeLossyFrom_eq_drop (k : Nat) (bytes : List UInt8) :
    decodeLossyFrom k bytes = decodeLossy (bytes.drop k) := by
  induction k generalizing bytes with
  | zero => rfl
  | succ k ih =>
    cases bytes with
    | nil => rfl
    | cons b bs => exact ih bs

theorem utf8Unit_of_lt {b : UInt8} (h : b < 0x80) (bs : List UInt8) :
    utf8Unit b bs = .point b.toNat 1 :=
  if_pos h

theorem isContinuation_of_lt {b : UInt8} (h : b < 0x80) : isContinuation b = false := by
  have hlt : b.toNat < 128 := by simpa [UInt8.lt_iff_toNat_lt] using h
  simp only [isContinuation, decide_eq_false_iff_not]
  omega

theorem isSecond_of_lt {b : UInt8} (h : b < 0x80) (lead : UInt8) : isSecond lead b = false := by
  rw [isSecond, isContinuation_of_lt h, Bool.false_and]

/-- A byte below 0x80 breaks off a unit just as the end of the data does. -/
theorem utf8Unit_append {a : UInt8} (h : a < 0x80) (lead : UInt8) (bs cs : List UInt8) :
    (utf8Unit lead (bs ++ a :: cs)).decoded = (utf8Unit lead bs).decoded ∧
      (utf8Unit lead (bs ++ a :: cs)).length = (utf8Unit lead bs).length := by
  have hfirst := isSecond_of_lt h lead
  have hlater := isContinuation_of_lt h
  match bs with
  | [] | [b] | [b, c] =>
    simp only [utf8Unit, List.nil_append, List.cons_append, hfirst, hlater]
    grind [Utf8Unit.decoded, Utf8Unit.length]
  | b :: c :: e :: bs => simp only [utf8Unit, List.cons_append, and_self]

/-- Every unit has a byte, and none has more than there are. -/
theorem length_utf8Unit_sub_one_le (lead : UInt8) (bs : List UInt8) :
    (utf8Unit lead bs).length - 1 ≤ bs.length := by
  fun_cases utf8Unit lead bs <;> simp [Utf8Unit.length]

/-- A byte below 0x80 stands for itself, wherever it is. -/
theorem decodeLossy_append_cons {a : UInt8} (h : a < 0x80) (bs cs : List UInt8) :
    decodeLossy (bs ++ a :: cs) = decodeLossy bs ++ a.toNat :: decodeLossy cs := by
  match bs with
  | [] =>
    rw [List.nil_append, decodeLossy_cons, utf8Unit_of_lt h, decodeLossyFrom_eq_drop]
    rfl
  | b :: bs =>
    obtain ⟨hdecoded, hlength⟩ := utf8Unit_append h b bs cs
    have hle := length_utf8Unit_sub_one_le b bs
    rw [List.cons_append, decodeLossy_cons, decodeLossy_cons, hdecoded, hlength,
      decodeLossyFrom_eq_drop, decodeLossyFrom_eq_drop, List.drop_append_of_le_length hle,
      decodeLossy_append_cons h, List.cons_append]
termination_by bs.length
decreasing_by
  rw [List.length_drop, List.length_cons]
  omega

/-- The second byte of a unit counts where the lead byte alone does not make it a large one. -/
theorem le_lowBits_of_isSecond {lead b : UInt8} (h : isSecond lead b = true) :
    (lead = 0xE0 → 32 ≤ lowBits b) ∧ (lead = 0xF0 → 16 ≤ lowBits b) := by
  have hb : b.toNat / 64 = 2 := by
    simp only [isSecond, isContinuation, Bool.and_eq_true, decide_eq_true_eq] at h
    exact h.1
  constructor
  · rintro rfl
    have hle : 160 ≤ b.toNat := by
      simpa [isSecond, UInt8.le_iff_toNat_le] using (Bool.and_eq_true_iff.mp h).2
    unfold lowBits
    omega
  · rintro rfl
    have hle : 144 ≤ b.toNat := by
      simpa [isSecond, UInt8.le_iff_toNat_le] using (Bool.and_eq_true_iff.mp h).2
    unfold lowBits
    omega

/-- No byte from 0x80 on starts a unit that is decoded to a code point below that. -/
theorem le_decoded_of_le {lead : UInt8} (h : 0x80 ≤ lead) (bs : List UInt8) :
    0x80 ≤ (utf8Unit lead bs).decoded := by
  fun_cases utf8Unit lead bs with
  | case1 _ hlt => exact absurd hlt (UInt8.not_lt.mpr h)
  | case3 _ hlead b =>
    simp only [Utf8Unit.decoded, UInt8.le_iff_toNat_le] at hlead ⊢
    simp at hlead
    omega
  | case8 _ _ hlead b hsecond =>
    have hlow := (le_lowBits_of_isSecond (by simpa using hsecond)).1
    simp only [Utf8Unit.decoded, UInt8.le_iff_toNat_le, ← UInt8.toNat_inj] at hlead hlow ⊢
    simp at hlead hlow
    omega
  | case15 _ _ _ hlead b hsecond =>
    have hlow := (le_lowBits_of_isSecond (by simpa using hsecond)).2
    simp only [Utf8Unit.decoded, UInt8.le_iff_toNat_le, ← UInt8.toNat_inj] at hlead hlow ⊢
    simp at hlead hlow
    omega
  | _ => simp [Utf8Unit.decoded]

/-- Only a byte below 0x80 is decoded to a code point below that. -/
theorem eq_of_decoded_lt {lead : UInt8} {bs : List UInt8}
    (h : (utf8Unit lead bs).decoded < 0x80) : (utf8Unit lead bs).decoded = lead.toNat := by
  by_cases hlead : lead < 0x80
  · rw [utf8Unit_of_lt hlead]
    rfl
  · have hle := le_decoded_of_le (UInt8.not_lt.mp hlead) bs
    omega

/-- A code point below 0x80 comes from a byte of its own. -/
theorem mem_of_mem_decodeLossy {b : UInt8} (hb : b < 0x80) {bytes : List UInt8}
    (h : b.toNat ∈ decodeLossy bytes) : b ∈ bytes := by
  match bytes with
  | [] => cases h
  | lead :: rest =>
    rw [decodeLossy_cons, decodeLossyFrom_eq_drop] at h
    obtain heq | hrest := List.mem_cons.mp h
    · have hlead := eq_of_decoded_lt (heq ▸ UInt8.lt_iff_toNat_lt.mp hb)
      obtain rfl := UInt8.toNat_inj.mp (heq.trans hlead)
      exact List.mem_cons_self
    · exact List.mem_cons_of_mem lead (List.mem_of_mem_drop (mem_of_mem_decodeLossy hb hrest))
termination_by bytes.length
decreasing_by
  rw [List.length_drop, List.length_cons]
  omega

theorem notMem_decodeLossy {b : UInt8} (hb : b < 0x80) {bytes : List UInt8} (h : b ∉ bytes) :
    b.toNat ∉ decodeLossy bytes :=
  fun hmem => h (mem_of_mem_decodeLossy hb hmem)

/-- What a unit is does not depend on the bytes after it. -/
theorem utf8Unit_take {lead : UInt8} {bs : List UInt8} {c n : Nat}
    (h : utf8Unit lead bs = .point c n) {k : Nat} (hk : n - 1 ≤ k) :
    utf8Unit lead (bs.take k) = .point c n := by
  revert h
  fun_cases utf8Unit lead bs <;> rintro ⟨⟩
  case case1 hlead => exact utf8Unit_of_lt hlead _
  all_goals
    obtain ⟨k, rfl⟩ := Nat.exists_eq_add_of_le' hk
    simp [utf8Unit, *]

theorem one_le_length_utf8Unit (lead : UInt8) (bs : List UInt8) :
    1 ≤ (utf8Unit lead bs).length := by
  fun_cases utf8Unit lead bs <;> simp [Utf8Unit.length]

theorem decodeFrom_eq_drop (start k : Nat) (bytes : List UInt8) :
    decodeFrom start k bytes = decodeFrom (start + k) 0 (bytes.drop k) := by
  induction k generalizing start bytes with
  | zero => rfl
  | succ k ih =>
    cases bytes with
    | nil => rfl
    | cons b bs =>
      rw [decodeFrom, ih, Nat.add_right_comm, Nat.add_assoc, List.drop_succ_cons]

theorem decodeFrom_of_point {lead : UInt8} {bs : List UInt8} {c n : Nat}
    (h : utf8Unit lead bs = .point c n) (start : Nat) :
    decodeFrom start 0 (lead :: bs) =
      (decodeFrom (start + n) 0 (bs.drop (n - 1))).map (c :: ·) := by
  have hpos := one_le_length_utf8Unit lead bs
  rw [h, Utf8Unit.length] at hpos
  rw [decodeFrom, h]
  simp only
  rw [decodeFrom_eq_drop, Nat.add_assoc, Nat.add_sub_of_le hpos]

theorem decodeLossy_of_point {lead : UInt8} {bs : List UInt8} {c n : Nat}
    (h : utf8Unit lead bs = .point c n) :
    decodeLossy (lead :: bs) = c :: decodeLossy (bs.drop (n - 1)) := by
  rw [decodeLossy_cons, h, decodeLossyFrom_eq_drop]
  rfl

/-- A broken part becomes one replacement character, however long it is. -/
theorem decodeLossy_of_broken {lead : UInt8} {bs : List UInt8} {reason : Utf8Reason} {n : Nat}
    (h : utf8Unit lead bs = .broken reason n) :
    decodeLossy (lead :: bs) = 0xFFFD :: decodeLossy (bs.drop (n - 1)) := by
  rw [decodeLossy_cons, h, decodeLossyFrom_eq_drop]
  rfl

/-- Bytes with no fault have one text for both ways of decoding. -/
theorem decodeLossy_of_decodeFrom_eq_ok {start : Nat} {bytes : List UInt8} {t : Text}
    (h : decodeFrom start 0 bytes = .ok t) : decodeLossy bytes = t := by
  match bytes with
  | [] => exact Except.ok.inj h
  | b :: bs =>
    cases hunit : utf8Unit b bs with
    | broken reason n =>
      rw [decodeFrom, hunit] at h
      cases h
    | point c n =>
      rw [decodeFrom_of_point hunit] at h
      obtain ⟨u, hrest, rfl⟩ := map_eq_ok_iff.mp h
      rw [decodeLossy_of_point hunit, decodeLossy_of_decodeFrom_eq_ok hrest]
termination_by bytes.length
decreasing_by
  rw [List.length_drop, List.length_cons]
  omega

/-- The first fault becomes one replacement character. Before it stands what the bytes before the
broken part are decoded to, and after it what those after the part are. -/
theorem decodeLossy_of_decodeFrom_eq_error {start : Nat} {bytes : List UInt8} {f : Utf8Fault}
    (h : decodeFrom start 0 bytes = .error f) :
    start ≤ f.start ∧ ∃ t, decodeFrom start 0 (bytes.take (f.start - start)) = .ok t ∧
      decodeLossy bytes =
        t ++ 0xFFFD :: decodeLossy (bytes.drop (f.start - start + f.bytes.length)) := by
  match bytes with
  | [] => cases h
  | b :: bs =>
    have hpos := one_le_length_utf8Unit b bs
    have hle := length_utf8Unit_sub_one_le b bs
    cases hunit : utf8Unit b bs with
    | broken reason n =>
      rw [hunit, Utf8Unit.length] at hpos hle
      rw [decodeFrom, hunit] at h
      obtain rfl := Except.error.inj h
      have hdrop : (b :: bs).drop ((b :: bs).take n).length = bs.drop (n - 1) := by
        obtain ⟨m, rfl⟩ := Nat.exists_eq_add_of_le' hpos
        rw [List.length_take_of_le (by rw [List.length_cons]; omega)]
        rfl
      refine ⟨Nat.le_refl start, [], by rw [Nat.sub_self]; rfl, ?_⟩
      rw [decodeLossy_of_broken hunit, Nat.sub_self, Nat.zero_add, hdrop]
      rfl
    | point c n =>
      rw [hunit, Utf8Unit.length] at hpos
      rw [decodeFrom_of_point hunit] at h
      obtain ⟨hstart, t, ht, hlossy⟩ :=
        decodeLossy_of_decodeFrom_eq_error (map_eq_error_iff.mp h)
      -- The bytes of the first unit are among those before the broken part.
      obtain ⟨m, rfl⟩ := Nat.exists_eq_add_of_le' hpos
      obtain ⟨k, hk⟩ := Nat.exists_eq_add_of_le hstart
      have hcount : f.start - start = m + k + 1 := by omega
      rw [hk, Nat.add_sub_cancel_left] at ht hlossy
      rw [Nat.add_sub_cancel] at ht hlossy
      have hbefore : decodeFrom start 0 ((b :: bs).take (m + k + 1)) = .ok (c :: t) := by
        rw [List.take_succ_cons, decodeFrom_of_point (utf8Unit_take hunit (by omega)),
          Nat.add_sub_cancel, List.drop_take, Nat.add_sub_cancel_left, ht]
        rfl
      refine ⟨by omega, c :: t, hcount ▸ hbefore, ?_⟩
      rw [decodeLossy_of_point hunit, Nat.add_sub_cancel, hlossy, List.drop_drop, hcount,
        Nat.add_right_comm (m + k), List.drop_succ_cons, Nat.add_assoc m]
      rfl
termination_by bytes.length
decreasing_by
  rw [List.length_drop, List.length_cons]
  omega

/-- Where bytes are broken for the first time, the broken part becomes one replacement character.
What is before it is decoded as it is, and what follows it as if nothing were before it. -/
theorem decodeLossy_of_decode_eq_error {bytes : List UInt8} {f : Utf8Fault}
    (h : decode bytes = .error f) :
    ∃ t, decode (bytes.take f.start) = .ok t ∧
      decodeLossy bytes = t ++ 0xFFFD :: decodeLossy (bytes.drop (f.start + f.bytes.length)) := by
  obtain ⟨_, t, ht, hlossy⟩ := decodeLossy_of_decodeFrom_eq_error h
  rw [Nat.sub_zero] at ht hlossy
  exact ⟨t, ht, hlossy⟩

/-- A code point that breaks off after two bytes is one replacement character, and a byte that
starts none is another. -/
example : ofBytes [0x61, 0xE2, 0x82, 0x62, 0xFF, 0x0D, 0x0A] = [0x61, 0xFFFD, 0x62, 0xFFFD, 0x0A] :=
  by decide

end TypeAtlas.Text
