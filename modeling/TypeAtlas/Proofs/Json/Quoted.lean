import TypeAtlas.Json.Reader
import TypeAtlas.Json.Writer

namespace TypeAtlas

/-- All code points of a text are Unicode scalar values. -/
def Text.IsScalar (t : Text) : Prop :=
  ∀ c ∈ t, c.isValidChar

namespace Json

theorem hexValue?_hexDigit {d : Nat} (h : d < 16) : hexValue? (hexDigit d) = some d := by
  have hall : ∀ d < 16, hexValue? (hexDigit d) = some d := by decide
  exact hall d h

/-- Four digits name the code unit that they were written for. -/
theorem unit?_hexDigits {u : Nat} (h : u < 0x10000) :
    unit? (hexDigit (u / 4096 % 16)) (hexDigit (u / 256 % 16)) (hexDigit (u / 16 % 16))
      (hexDigit (u % 16)) = some u := by
  have hvalue : ((u / 4096 % 16 * 16 + u / 256 % 16) * 256 + u / 16 % 16 * 16 + u % 16) = u := by
    omega
  simp [unit?, hexValue?_hexDigit, Nat.mod_lt, hvalue]

theorem readQuoted_escapeUnit {u : Nat} (h : u < 0x10000) (points : List Nat) (r : List Char) :
    readQuoted points (escapeUnit u ++ r) = readQuoted (pushUnit u points) r := by
  simp only [escapeUnit, List.cons_append, List.nil_append]
  rw [readQuoted, unit?_hexDigits h]

/-- A code unit that is no low surrogate stands for itself. -/
theorem pushUnit_of_not_low {u : Nat} (h : ¬ (0xDC00 ≤ u ∧ u < 0xE000)) (points : List Nat) :
    pushUnit u points = u :: points := by
  cases points with
  | nil => rfl
  | cons p points =>
    have hnot : ¬ (0xDC00 ≤ u ∧ u < 0xE000 ∧ 0xD800 ≤ p ∧ p < 0xDC00) :=
      fun hlow => h ⟨hlow.1, hlow.2.1⟩
    rw [pushUnit, if_neg hnot]

/-- The two surrogates of a code point of more than sixteen bits make it up again. -/
theorem pushUnit_pair {c : Nat} (hlow : 0x10000 ≤ c) (hhigh : c < 0x110000) (points : List Nat) :
    pushUnit (0xDC00 + (c - 0x10000) % 1024)
      (pushUnit (0xD800 + (c - 0x10000) / 1024) points) = c :: points := by
  have hfirst : pushUnit (0xD800 + (c - 0x10000) / 1024) points =
      (0xD800 + (c - 0x10000) / 1024) :: points := pushUnit_of_not_low (by omega) points
  have hvalue : 0x10000 + (0xD800 + (c - 0x10000) / 1024 - 0xD800) * 1024 +
      (0xDC00 + (c - 0x10000) % 1024 - 0xDC00) = c := by omega
  rw [hfirst, pushUnit, if_pos (by omega), hvalue]

/-- A code point is written by a letter behind a backslash, as itself, or by its code units. -/
theorem escapePoint_cases (c : Nat) :
    (∃ letter, letter ∈ ['"', '\\', 'n', 'r', 't', 'b', 'f'] ∧ escapeValue? letter = some c ∧
      escapePoint c = ['\\', letter]) ∨
    (c ≠ '"'.toNat ∧ c ≠ '\\'.toNat ∧ 32 ≤ c ∧ c ≤ 126 ∧ escapePoint c = [Char.ofNat c]) ∨
    (c < 0x10000 ∧ escapePoint c = escapeUnit c) ∨
    (0x10000 ≤ c ∧ escapePoint c = escapeUnit (0xD800 + (c - 0x10000) / 1024) ++
      escapeUnit (0xDC00 + (c - 0x10000) % 1024)) := by
  by_cases hletter : ∃ letter ∈ ['"', '\\', 'n', 'r', 't', 'b', 'f'], escapeValue? letter = some c
  · obtain ⟨letter, hmem, hvalue⟩ := hletter
    refine .inl ⟨letter, hmem, hvalue, ?_⟩
    simp only [List.mem_cons, List.not_mem_nil, or_false] at hmem
    obtain rfl | rfl | rfl | rfl | rfl | rfl | rfl := hmem
    all_goals
      obtain rfl := Option.some.inj hvalue
      rfl
  · simp only [List.mem_cons, List.not_mem_nil, or_false, exists_eq_or_imp, exists_eq_left,
      escapeValue?, Option.some.injEq, not_or] at hletter
    obtain ⟨hquote, hbackslash, hn, hr, ht, hb, hf⟩ := hletter
    right
    rw [escapePoint, if_neg (Ne.symm hquote), if_neg (Ne.symm hbackslash), if_neg (Ne.symm hn),
      if_neg (Ne.symm hr), if_neg (Ne.symm ht), if_neg (Ne.symm hb), if_neg (Ne.symm hf)]
    by_cases hprintable : 32 ≤ c ∧ c ≤ 126
    · exact .inl ⟨Ne.symm hquote, Ne.symm hbackslash, hprintable.1, hprintable.2, if_pos hprintable⟩
    · rw [if_neg hprintable]
      by_cases hunit : c < 0x10000
      · exact .inr (.inl ⟨hunit, if_pos hunit⟩)
      · exact .inr (.inr ⟨by omega, if_neg hunit⟩)

/-- A letter behind a backslash is read as the code point that it stands for. -/
theorem readQuoted_letter {letter : Char} {c : Nat} (hu : letter ≠ 'u')
    (hvalue : escapeValue? letter = some c) (points : List Nat) (r : List Char) :
    readQuoted points ('\\' :: letter :: r) = readQuoted (c :: points) r := by
  rw [readQuoted]
  · rw [hvalue]
  · simp [hu]

theorem readQuoted_plain {c : Nat} (hquote : c ≠ '"'.toNat) (hbackslash : c ≠ '\\'.toNat)
    (hlow : 32 ≤ c) (hhigh : c ≤ 126) (points : List Nat) (r : List Char) :
    readQuoted points (Char.ofNat c :: r) = readQuoted (c :: points) r := by
  have hvalid : c.isValidChar := .inl (by omega)
  have hnat : (Char.ofNat c).toNat = c := by
    rw [Char.ofNat, dif_pos hvalid]
    rfl
  have hq : Char.ofNat c ≠ '"' := fun heq => hquote (by rw [← heq, hnat])
  have hb : Char.ofNat c ≠ '\\' := fun heq => hbackslash (by rw [← heq, hnat])
  have hprintable : ¬ (Char.ofNat c).toNat < 32 := by omega
  rw [readQuoted, if_neg hprintable, hnat]
  all_goals simp [hq, hb]

/-- What is written for a scalar value is read as that value. -/
theorem readQuoted_escapePoint {c : Nat} (hc : c.isValidChar) (points : List Nat) (r : List Char) :
    readQuoted points (escapePoint c ++ r) = readQuoted (c :: points) r := by
  have hbound : c < 0xD800 ∨ 0xDFFF < c ∧ c < 0x110000 := hc
  obtain ⟨letter, hmem, hvalue, htext⟩ | ⟨hquote, hbackslash, hlow, hhigh, htext⟩ |
    ⟨hunit, htext⟩ | ⟨hpair, htext⟩ := escapePoint_cases c
  · have hu : letter ≠ 'u' := by
      rintro rfl
      simp at hmem
    rw [htext]
    exact readQuoted_letter hu hvalue points r
  · rw [htext]
    exact readQuoted_plain hquote hbackslash hlow hhigh points r
  · rw [htext, readQuoted_escapeUnit hunit, pushUnit_of_not_low (by omega)]
  · rw [htext, List.append_assoc, readQuoted_escapeUnit (by omega),
      readQuoted_escapeUnit (by omega), pushUnit_pair hpair (by omega)]

theorem readQuoted_flatMap {t : Text} (ht : t.IsScalar) (points : List Nat) (r : List Char) :
    readQuoted points (t.flatMap escapePoint ++ '"' :: r) = some (points.reverse ++ t, r) := by
  induction t generalizing points with
  | nil => simp [readQuoted]
  | cons c t ih =>
    have hc : c.isValidChar := ht c List.mem_cons_self
    have hrest := ih (fun d hd => ht d (List.mem_cons_of_mem c hd)) (c :: points)
    rw [List.flatMap_cons, List.append_assoc, readQuoted_escapePoint hc, hrest]
    simp

/-- A text of scalar values is read back from its quotation. -/
theorem readQuoted_quoted {t : Text} (ht : t.IsScalar) (r : List Char) :
    quoted t ++ r = '"' :: (t.flatMap escapePoint ++ '"' :: r) ∧
      readQuoted [] (t.flatMap escapePoint ++ '"' :: r) = some (t, r) := by
  refine ⟨by simp [quoted], ?_⟩
  rw [readQuoted_flatMap ht, List.reverse_nil, List.nil_append]

end Json

end TypeAtlas
