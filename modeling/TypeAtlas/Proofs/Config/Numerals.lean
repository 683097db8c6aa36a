import Mathlib.Data.List.Basic
import TypeAtlas.Proofs.Config.Showing
import TypeAtlas.Toml.Numbers

namespace TypeAtlas.Toml

theorem digitValue?_of_isDigit {c : Char} (h : c.isDigit = true) :
    digitValue? 10 c = some (c.toNat - '0'.toNat) := by
  have hrange : '0' ≤ c ∧ c ≤ '9' := by
    simpa [Char.isDigit, Char.le_def] using h
  have hlow : c.toNat - '0'.toNat < 10 := by
    have h9 : c.toNat ≤ '9'.toNat := hrange.2
    simp at h9 ⊢
    omega
  rw [digitValue?, if_pos hrange, Option.filter_some, if_pos (by simpa using hlow)]

/-- All digits are read and counted. -/
theorem moreDigits_of_isDigit {r : List Char} (h : ∀ c ∈ r, c.isDigit = true)
    (value count : Nat) :
    moreDigits 10 value count r = (Nat.ofDigitChars 10 r value, count + r.length, []) := by
  induction r generalizing value count with
  | nil => rfl
  | cons c r ih =>
    rw [moreDigits.eq_def]
    simp only [digitValue?_of_isDigit (h c List.mem_cons_self)]
    rw [ih fun d hd => h d (List.mem_cons_of_mem c hd), Nat.ofDigitChars_cons, Nat.mul_comm value,
      List.length_cons, Nat.add_assoc, Nat.add_comm 1]

theorem wholePart?_of_isDigit {c : Char} {r : List Char} (h : ∀ d ∈ c :: r, d.isDigit = true)
    (hc : c ≠ '0') :
    wholePart? (c :: r) = some (Nat.ofDigitChars 10 (c :: r) 0, r.length + 1, []) := by
  have hfirst := digitValue?_of_isDigit (h c List.mem_cons_self)
  rw [wholePart?]
  · rw [digitRun?, hfirst, moreDigits_of_isDigit h]
    simp
  · simpa using hc

/-- The digits of a number other than zero do not start with one. -/
theorem head?_toDigits_ne {n : Nat} (h : n ≠ 0) : (Nat.toDigits 10 n).head? ≠ some '0' := by
  induction n using Nat.strongRecOn with
  | ind n ih =>
    by_cases hlt : n < 10
    · rw [Nat.toDigits_of_lt_base hlt]
      have hdigit : ∀ d < 10, d ≠ 0 → Nat.digitChar d ≠ '0' := by decide
      simpa using hdigit n hlt h
    · have hle : 10 ≤ n := Nat.le_of_not_lt hlt
      rw [Nat.toDigits_of_base_le (by decide) hle,
        List.head?_append_of_ne_nil _ Nat.toDigits_ne_nil]
      exact ih (n / 10) (by omega) (by omega)

theorem basedInteger?_of_ne {c : Char} (h : c ≠ '0') (r : List Char) :
    basedInteger? (c :: r) = none := by
  rw [basedInteger?]
  rintro mark s ⟨⟩
  exact h rfl

/-- Digits of which the first is not zero are read as one integer, with a minus before them or
without. -/
theorem number?_of_isDigit {c : Char} {r : List Char} (h : ∀ d ∈ c :: r, d.isDigit = true)
    (hc : c ≠ '0') :
    number? (c :: r) =
        some (decimalInteger false (Nat.ofDigitChars 10 (c :: r) 0) (r.length + 1), []) ∧
      number? ('-' :: c :: r) =
        some (decimalInteger true (Nat.ofDigitChars 10 (c :: r) 0) (r.length + 1), []) := by
  have hwhole := wholePart?_of_isDigit h hc
  have hminus : c ≠ '-' := by
    rintro rfl
    exact absurd (h '-' List.mem_cons_self) (by decide)
  have hplus : c ≠ '+' := by
    rintro rfl
    exact absurd (h '+' List.mem_cons_self) (by decide)
  constructor
  · rw [number?, basedInteger?_of_ne hc]
    simp [hwhole, exponentPart]
    · rintro s ⟨⟩
      exact hminus rfl
    · rintro s ⟨⟩
      exact hplus rfl
  · rw [number?, basedInteger?_of_ne (by decide)]
    simp [hwhole, exponentPart]

theorem decimalInteger_toDigits (isNegative : Bool) (n : Nat) :
    decimalInteger isNegative n (Nat.toDigits 10 n).length =
      if Text.isShort n then .ok (.integer (if isNegative then -(n : Int) else n))
      else .error (.tooManyDigits (Nat.toDigits 10 n).length) := by
  rw [decimalInteger]
  simp only [Text.isShort_iff, Int.natAbs_natCast]

theorem number?_toDigits {n : Nat} (h : n ≠ 0) :
    number? (Nat.toDigits 10 n) = some (decimalInteger false n (Nat.toDigits 10 n).length, []) ∧
      number? ('-' :: Nat.toDigits 10 n) =
        some (decimalInteger true n (Nat.toDigits 10 n).length, []) := by
  have hdigits : ∀ c ∈ Nat.toDigits 10 n, c.isDigit = true :=
    fun c hc => Nat.isDigit_of_mem_toDigits (by decide) (by decide) hc
  have hvalue : Nat.ofDigitChars 10 (Nat.toDigits 10 n) 0 = n :=
    Nat.ofDigitChars_ten_toDigits
  have hhead := head?_toDigits_ne h
  cases hshown : Nat.toDigits 10 n with
  | nil => exact absurd hshown Nat.toDigits_ne_nil
  | cons c r =>
    rw [hshown] at hdigits hvalue hhead
    have hread := number?_of_isDigit hdigits (fun heq => hhead (congrArg some heq))
    rwa [hvalue] at hread

/-- What is read of an integer in base ten is the integer, if it has no more digits than may be
written. Otherwise reading it fails, and tells how many there are. -/
theorem number?_repr (n : Int) :
    number? n.repr.toList =
      some (if Text.isShort n then .ok (.integer n)
        else .error (.tooManyDigits (Nat.toDigits 10 n.natAbs).length), []) := by
  match n with
  | .ofNat 0 =>
    have hshort : Text.isShort (.ofNat 0) = true := by simp [Text.isShort_iff, Text.digitLimit]
    rw [if_pos hshort]
    rfl
  | .ofNat (m + 1) =>
    have hread := (number?_toDigits (Nat.succ_ne_zero m)).1
    rw [decimalInteger_toDigits] at hread
    rw [Int.repr, Nat.toList_repr, hread]
    rfl
  | .negSucc m =>
    have hread := (number?_toDigits (Nat.succ_ne_zero m)).2
    rw [decimalInteger_toDigits] at hread
    rw [Int.repr, String.toList_append, Nat.toList_repr]
    exact hread

end TypeAtlas.Toml
