import Mathlib.Data.Nat.Digits.Defs
import TypeAtlas.Json.Reader
import TypeAtlas.Json.Writer

namespace TypeAtlas.Json

/-- A number that stands before `r` does not go on in it. -/
def EndsNumber (r : List Char) : Prop :=
  ∀ c, r.head? = some c → c.isDigit = false ∧ c ≠ '.' ∧ c ≠ 'e' ∧ c ≠ 'E'

theorem endsNumber_nil : EndsNumber [] := by
  intro c hc
  cases hc

theorem endsNumber_cons {c : Char} {r : List Char} (hdigit : c.isDigit = false) (hpoint : c ≠ '.')
    (hlower : c ≠ 'e') (hupper : c ≠ 'E') : EndsNumber (c :: r) := by
  rintro _ ⟨rfl⟩
  exact ⟨hdigit, hpoint, hlower, hupper⟩

/-- All digits are read, and nothing else. -/
theorem readDigits_append {digits rest : List Char} (hdigits : ∀ c ∈ digits, c.isDigit = true)
    (hrest : ∀ c, rest.head? = some c → c.isDigit = false) (value count : Nat) :
    readDigits value count (digits ++ rest) =
      (Nat.ofDigitChars 10 digits value, count + digits.length, rest) := by
  induction digits generalizing value count with
  | nil =>
    cases rest with
    | nil => simp [readDigits]
    | cons c rest => simp [readDigits, hrest c rfl]
  | cons c digits ih =>
    have hc : c.isDigit = true := hdigits c List.mem_cons_self
    have htail := ih fun d hd => hdigits d (List.mem_cons_of_mem c hd)
    have hlength : count + 1 + digits.length = count + (digits.length + 1) := by omega
    rw [List.cons_append, readDigits, if_pos hc, htail, hlength]
    simp [Nat.ofDigitChars, Nat.mul_comm]

theorem isDigit_of_mem_toDigits {n : Nat} {c : Char} (h : c ∈ Nat.toDigits 10 n) :
    c.isDigit = true :=
  Nat.isDigit_of_mem_toDigits (by decide) (by decide) h

/-- The number that a numeral writes is read back from it. -/
theorem readDigits_toDigits (n : Nat) {rest : List Char}
    (hrest : ∀ c, rest.head? = some c → c.isDigit = false) :
    readDigits 0 0 (Nat.toDigits 10 n ++ rest) = (n, (Nat.toDigits 10 n).length, rest) := by
  rw [readDigits_append (fun c hc => isDigit_of_mem_toDigits hc) hrest,
    Nat.ofDigitChars_ten_toDigits, Nat.zero_add]

theorem exists_length_toDigits (n : Nat) : ∃ k, (Nat.toDigits 10 n).length = k + 1 :=
  Nat.exists_eq_add_of_le' Nat.length_toDigits_pos

theorem exists_toDigits_eq_cons (n : Nat) :
    ∃ d digits, Nat.toDigits 10 n = d :: digits ∧ d.isDigit = true := by
  obtain ⟨d, digits, hdigits⟩ := List.exists_cons_of_ne_nil (Nat.toDigits_ne_nil (b := 10) (n := n))
  exact ⟨d, digits, hdigits, isDigit_of_mem_toDigits (n := n) (by simp [hdigits])⟩

theorem head?_toDigits_ne_zero {n : Nat} (h : 0 < n) : (Nat.toDigits 10 n).head? ≠ some '0' := by
  induction n using Nat.strong_induction_on with
  | h n ih =>
    by_cases hn : n < 10
    · have hdigits : ∀ d < 10, 0 < d → d.digitChar ≠ '0' := by decide
      rw [Nat.toDigits_of_lt_base hn]
      simpa using hdigits n hn h
    · have hquotient : (Nat.toDigits 10 (n / 10)).head? ≠ some '0' :=
        ih (n / 10) (by omega) (by omega)
      rw [Nat.toDigits_of_base_le (by decide) (by omega)]
      obtain ⟨d, digits, hdigits, _⟩ := exists_toDigits_eq_cons (n / 10)
      simpa [hdigits] using hquotient

/-- A numeral of several digits does not start with a zero. -/
theorem head?_toDigits_append_ne_zero {n : Nat} (rest : List Char)
    (h : 1 < (Nat.toDigits 10 n).length) : (Nat.toDigits 10 n ++ rest).head? ≠ some '0' := by
  have hpositive : 0 < n := by
    by_contra hzero
    obtain rfl : n = 0 := by omega
    simp at h
  have hhead := head?_toDigits_ne_zero hpositive
  obtain ⟨d, digits, hdigits, _⟩ := exists_toDigits_eq_cons n
  simpa [hdigits] using hhead

theorem readWhole_toDigits (n : Nat) {rest : List Char}
    (hrest : ∀ c, rest.head? = some c → c.isDigit = false) :
    readWhole (Nat.toDigits 10 n ++ rest) = some (n, rest) := by
  obtain ⟨k, hk⟩ := exists_length_toDigits n
  rw [readWhole, readDigits_toDigits n hrest, hk]
  have hshort : ¬ (1 < k + 1 ∧ (Nat.toDigits 10 n ++ rest).head? = some '0') := by
    rintro ⟨hlong, hzero⟩
    exact head?_toDigits_append_ne_zero rest (hk ▸ hlong) hzero
  exact if_neg hshort

/-- A numeral has no sign in front. -/
theorem readMinus_toDigits (n : Nat) (rest : List Char) :
    readMinus (Nat.toDigits 10 n ++ rest) = (false, Nat.toDigits 10 n ++ rest) := by
  obtain ⟨d, digits, hdigits, hd⟩ := exists_toDigits_eq_cons n
  have hminus : d ≠ '-' := by rintro rfl; simp at hd
  simp [hdigits, readMinus, hminus]

theorem readSign_toDigits (n : Nat) (rest : List Char) :
    readSign (Nat.toDigits 10 n ++ rest) = (false, Nat.toDigits 10 n ++ rest) := by
  have hnone := readMinus_toDigits n rest
  obtain ⟨d, digits, hdigits, hd⟩ := exists_toDigits_eq_cons n
  have hplus : d ≠ '+' := by rintro rfl; simp at hd
  rw [hdigits] at hnone ⊢
  simpa [readSign, hplus] using hnone

theorem toList_toString_natCast (n : Nat) : (toString (n : Int)).toList = Nat.toDigits 10 n := by
  simp [Int.toString_eq_repr, Int.repr]

theorem toList_toString_negSucc (n : Nat) :
    (toString (Int.negSucc n)).toList = '-' :: Nat.toDigits 10 (n + 1) := by
  simp [Int.toString_eq_repr, Int.repr]

theorem readExponent_toString (e : Int) {rest : List Char} (hrest : EndsNumber rest) :
    readExponent ('e' :: ((toString e).toList ++ rest)) = some (some e, rest) := by
  have hdigit : ∀ c, rest.head? = some c → c.isDigit = false := fun c hc => (hrest c hc).1
  cases e with
  | ofNat n =>
    obtain ⟨k, hk⟩ := exists_length_toDigits n
    have hread := readDigits_toDigits n hdigit
    rw [hk] at hread
    have htext : (toString (Int.ofNat n)).toList = Nat.toDigits 10 n := toList_toString_natCast n
    rw [readExponent, if_pos (.inl rfl), htext, readSign_toDigits]
    simp [hread]
  | negSucc n =>
    obtain ⟨k, hk⟩ := exists_length_toDigits (n + 1)
    have hread := readDigits_toDigits (n + 1) hdigit
    rw [hk] at hread
    rw [readExponent, if_pos (.inl rfl), toList_toString_negSucc]
    simp [readSign, readMinus, hread, Int.negSucc_eq]

theorem readExponent_of_endsNumber {rest : List Char} (hrest : EndsNumber rest) :
    readExponent rest = some (none, rest) := by
  cases rest with
  | nil => rfl
  | cons c rest =>
    obtain ⟨_, _, hlower, hupper⟩ := hrest c rfl
    simp [readExponent, hlower, hupper]

theorem readPlaces_of_endsNumber (whole : Nat) {rest : List Char}
    (hrest : ∀ c, rest.head? = some c → c ≠ '.') :
    readPlaces whole rest = some (whole, 0, rest) := by
  cases rest with
  | nil => rfl
  | cons c rest => simp [readPlaces, hrest c rfl]

theorem readNumber_integer (n : Int) {rest : List Char} (hrest : EndsNumber rest) :
    readNumber ((toString n).toList ++ rest) = some (.integer n, rest) := by
  have hdigit : ∀ c, rest.head? = some c → c.isDigit = false := fun c hc => (hrest c hc).1
  have hpoint : ∀ c, rest.head? = some c → c ≠ '.' := fun c hc => (hrest c hc).2.1
  cases n with
  | ofNat n =>
    have htext : (toString (Int.ofNat n)).toList = Nat.toDigits 10 n := toList_toString_natCast n
    rw [readNumber, htext, readMinus_toDigits]
    simp [readWhole_toDigits n hdigit, readPlaces_of_endsNumber n hpoint,
      readExponent_of_endsNumber hrest]
  | negSucc n =>
    rw [readNumber, toList_toString_negSucc]
    simp [readMinus, readWhole_toDigits (n + 1) hdigit, readPlaces_of_endsNumber (n + 1) hpoint,
      readExponent_of_endsNumber hrest, Int.negSucc_eq]

theorem readNumber_decimal (isNegative : Bool) (digits : Nat) (exponent : Int) {rest : List Char}
    (hrest : EndsNumber rest) :
    readNumber (decimalText isNegative digits exponent ++ rest) =
      some (.decimal isNegative digits exponent, rest) := by
  let tail := 'e' :: ((toString exponent).toList ++ rest)
  have hwhole : readWhole (Nat.toDigits 10 digits ++ tail) = some (digits, tail) :=
    readWhole_toDigits digits (by simp [tail])
  have hplaces : readPlaces digits tail = some (digits, 0, tail) :=
    readPlaces_of_endsNumber digits (by simp [tail])
  have hexponent : readExponent tail = some (some exponent, rest) :=
    readExponent_toString exponent hrest
  have htext : decimalText isNegative digits exponent ++ rest =
      (if isNegative then ['-'] else []) ++ (Nat.toDigits 10 digits ++ tail) := by
    simp [decimalText, tail]
  rw [htext]
  cases isNegative with
  | false =>
    rw [if_neg (by decide), List.nil_append, readNumber, readMinus_toDigits]
    simp [hwhole, hplaces, hexponent]
  | true =>
    rw [if_pos rfl, readNumber]
    simp [readMinus, hwhole, hplaces, hexponent]

end TypeAtlas.Json
