import TypeAtlas.Proofs.Json.Numbers
import TypeAtlas.Proofs.Json.Quoted

namespace TypeAtlas.Json

/-- All texts in a value consist of Unicode scalar values. -/
inductive IsScalar : Json → Prop
  | null : IsScalar .null
  | bool {b : Bool} : IsScalar (.bool b)
  | integer {n : Int} : IsScalar (.integer n)
  | decimal {isNegative : Bool} {digits : Nat} {exponent : Int} :
      IsScalar (.decimal isNegative digits exponent)
  | text {t : Text} : t.IsScalar → IsScalar (.text t)
  | array {items : List Json} : (∀ j ∈ items, IsScalar j) → IsScalar (.array items)
  | object {members : List (Text × Json)} : (∀ m ∈ members, m.1.IsScalar) →
      (∀ m ∈ members, IsScalar m.2) → IsScalar (.object members)

def IsBlank (c : Char) : Prop :=
  c = ' ' ∨ c = '\n' ∨ c = '\r' ∨ c = '\t'

instance : DecidablePred IsBlank := fun c =>
  inferInstanceAs (Decidable (c = ' ' ∨ c = '\n' ∨ c = '\r' ∨ c = '\t'))

theorem skipBlanks_cons {c : Char} (r : List Char) (h : ¬ IsBlank c) :
    skipBlanks (c :: r) = c :: r :=
  if_neg h

theorem skipBlanks_replicate (n : Nat) (r : List Char) :
    skipBlanks (List.replicate n ' ' ++ r) = skipBlanks r := by
  induction n with
  | zero => rfl
  | succ n ih =>
    rw [List.replicate_succ, List.cons_append, skipBlanks, if_pos (.inl rfl), ih]

/-- What stands between the items of arrays and objects is skipped. -/
@[simp] theorem skipBlanks_gap (l : Layout) (depth : Nat) (r : List Char) :
    skipBlanks (l.gap depth ++ r) = skipBlanks r := by
  cases l with
  | line => rfl
  | lines =>
    rw [Layout.gap, List.cons_append, skipBlanks, if_pos (.inr (.inl rfl)), skipBlanks_replicate]

/-- A character with which a value can start. -/
structure BeginsValue (c : Char) : Prop where
  isVisible : ¬ IsBlank c
  ne_bracket : c ≠ ']'
  ne_brace : c ≠ '\x7d'

theorem beginsValue_of_isDigit {c : Char} (h : c.isDigit = true) : BeginsValue c := by
  constructor
  · rintro (rfl | rfl | rfl | rfl) <;> simp at h
  · rintro rfl
    simp at h
  · rintro rfl
    simp at h

theorem beginsValue_literal {c : Char} (h : c ∈ ['n', 't', 'f', '-', '"', '[', '\x7b']) :
    BeginsValue c := by
  simp only [List.mem_cons, List.not_mem_nil, or_false] at h
  obtain rfl | rfl | rfl | rfl | rfl | rfl | rfl := h
  all_goals exact ⟨by decide, by decide, by decide⟩

theorem exists_toString_eq_cons (n : Int) :
    ∃ c r, (toString n).toList = c :: r ∧ (c.isDigit = true ∨ c = '-') := by
  cases n with
  | ofNat n =>
    obtain ⟨d, digits, hdigits, hd⟩ := exists_toDigits_eq_cons n
    exact ⟨d, digits, (toList_toString_natCast n).trans hdigits, .inl hd⟩
  | negSucc n => exact ⟨'-', _, toList_toString_negSucc n, .inr rfl⟩

theorem exists_decimalText_eq_cons (isNegative : Bool) (digits : Nat) (exponent : Int) :
    ∃ c r, decimalText isNegative digits exponent = c :: r ∧ (c.isDigit = true ∨ c = '-') := by
  cases isNegative with
  | true => exact ⟨'-', _, rfl, .inr rfl⟩
  | false =>
    obtain ⟨d, rest, hdigits, hd⟩ := exists_toDigits_eq_cons digits
    exact ⟨d, rest ++ 'e' :: (toString exponent).toList, by simp [decimalText, hdigits], .inl hd⟩

theorem beginsValue_of_number {c : Char} (h : c.isDigit = true ∨ c = '-') : BeginsValue c := by
  obtain hdigit | rfl := h
  · exact beginsValue_of_isDigit hdigit
  · exact beginsValue_literal (by decide)

/-- What is written for a value starts as a value does. -/
theorem exists_write_eq_cons (l : Layout) (depth : Nat) (j : Json) :
    ∃ c r, write l depth j = c :: r ∧ BeginsValue c := by
  cases j with
  | null => exact ⟨'n', _, by rw [write]; rfl, beginsValue_literal (by decide)⟩
  | bool b =>
    cases b with
    | true => exact ⟨'t', _, by rw [write]; rfl, beginsValue_literal (by decide)⟩
    | false => exact ⟨'f', _, by rw [write]; rfl, beginsValue_literal (by decide)⟩
  | integer n =>
    obtain ⟨c, r, htext, hc⟩ := exists_toString_eq_cons n
    exact ⟨c, r, by rw [write, htext], beginsValue_of_number hc⟩
  | decimal isNegative digits exponent =>
    obtain ⟨c, r, htext, hc⟩ := exists_decimalText_eq_cons isNegative digits exponent
    exact ⟨c, r, by rw [write, htext], beginsValue_of_number hc⟩
  | text t => exact ⟨'"', _, by rw [write]; rfl, beginsValue_literal (by decide)⟩
  | array items =>
    cases items with
    | nil => exact ⟨'[', _, by rw [write], beginsValue_literal (by decide)⟩
    | cons j js => exact ⟨'[', _, by rw [write]; rfl, beginsValue_literal (by decide)⟩
  | object members =>
    cases members with
    | nil => exact ⟨'\x7b', _, by rw [write], beginsValue_literal (by decide)⟩
    | cons m ms => exact ⟨'\x7b', _, by rw [write]; rfl, beginsValue_literal (by decide)⟩

theorem skipBlanks_write (l : Layout) (depth : Nat) (j : Json) (r : List Char) :
    skipBlanks (write l depth j ++ r) = write l depth j ++ r := by
  obtain ⟨c, rest, hwrite, hc⟩ := exists_write_eq_cons l depth j
  rw [hwrite, List.cons_append, skipBlanks_cons _ hc.isVisible]

theorem length_write_pos (l : Layout) (depth : Nat) (j : Json) : 0 < (write l depth j).length := by
  obtain ⟨c, rest, hwrite, _⟩ := exists_write_eq_cons l depth j
  simp [hwrite]

theorem ne_of_number {c d : Char} (h : c.isDigit = true ∨ c = '-') (hdigit : d.isDigit = false)
    (hminus : d ≠ '-') : c ≠ d := by
  rintro rfl
  simp [hdigit, hminus] at h

/-- A number is read where neither a text, an array, an object nor a word starts. -/
theorem readValue_number {c : Char} (h : c.isDigit = true ∨ c = '-') (fuel : Nat) (r : List Char) :
    readValue (fuel + 1) (c :: r) = readNumber (c :: r) := by
  have hquote : c ≠ '"' := ne_of_number h (by decide) (by decide)
  have hbracket : c ≠ '[' := ne_of_number h (by decide) (by decide)
  have hbrace : c ≠ '\x7b' := ne_of_number h (by decide) (by decide)
  have hn : c ≠ 'n' := ne_of_number h (by decide) (by decide)
  have ht : c ≠ 't' := ne_of_number h (by decide) (by decide)
  have hf : c ≠ 'f' := ne_of_number h (by decide) (by decide)
  have hvisible := (beginsValue_of_number h).isVisible
  simp [readValue, skipBlanks_cons r hvisible, afterWord?, hquote, hbracket, hbrace, hn.symm,
    ht.symm, hf.symm]

/-- What stands behind an item or a member ends a number. -/
theorem endsNumber_gap (l : Layout) (depth : Nat) {c : Char} (hc : c ∈ [',', ']', '\x7d'])
    (r : List Char) : EndsNumber (l.gap depth ++ c :: r) := by
  cases l with
  | line =>
    simp only [List.mem_cons, List.not_mem_nil, or_false] at hc
    obtain rfl | rfl | rfl := hc
    all_goals exact endsNumber_cons (by decide) (by decide) (by decide) (by decide)
  | lines => exact endsNumber_cons (by decide) (by decide) (by decide) (by decide)

theorem endsNumber_writeItems (l : Layout) (depth outer : Nat) (js : List Json) (r : List Char) :
    EndsNumber (writeItems l depth js ++ (l.gap outer ++ ']' :: r)) := by
  cases js with
  | nil =>
    rw [writeItems, List.nil_append]
    exact endsNumber_gap l outer (by decide) r
  | cons j js =>
    rw [writeItems]
    exact endsNumber_gap .line 0 (by decide) _

theorem endsNumber_writeMembers (l : Layout) (depth outer : Nat) (ms : List (Text × Json))
    (r : List Char) : EndsNumber (writeMembers l depth ms ++ (l.gap outer ++ '\x7d' :: r)) := by
  cases ms with
  | nil =>
    rw [writeMembers, List.nil_append]
    exact endsNumber_gap l outer (by decide) r
  | cons m ms =>
    rw [writeMembers]
    exact endsNumber_gap .line 0 (by decide) _

theorem readValue_quoted {t : Text} (ht : t.IsScalar) (fuel : Nat) (r : List Char) :
    readValue (fuel + 1) (quoted t ++ r) = some (.text t, r) := by
  obtain ⟨htext, hread⟩ := readQuoted_quoted ht r
  rw [htext, readValue, skipBlanks_cons _ (by decide)]
  simp [hread]

theorem skipBlanks_skipBlanks (r : List Char) : skipBlanks (skipBlanks r) = skipBlanks r := by
  induction r with
  | nil => rfl
  | cons c r ih =>
    by_cases hc : IsBlank c
    · have hskip : skipBlanks (c :: r) = skipBlanks r := if_pos hc
      rw [hskip, ih]
    · rw [skipBlanks_cons r hc, skipBlanks_cons r hc]

theorem readValue_skipBlanks (fuel : Nat) (r : List Char) :
    readValue fuel (skipBlanks r) = readValue fuel r := by
  cases fuel with
  | zero => rw [readValue, readValue]
  | succ fuel => rw [readValue, readValue, skipBlanks_skipBlanks]

theorem readMember_skipBlanks (fuel : Nat) (r : List Char) :
    readMember fuel (skipBlanks r) = readMember fuel r := by
  cases fuel with
  | zero => rw [readMember, readMember]
  | succ fuel => rw [readMember, readMember, skipBlanks_skipBlanks]

@[simp] theorem readValue_gap (fuel : Nat) (l : Layout) (depth : Nat) (r : List Char) :
    readValue fuel (l.gap depth ++ r) = readValue fuel r := by
  rw [← readValue_skipBlanks, skipBlanks_gap, readValue_skipBlanks]

@[simp] theorem readMember_gap (fuel : Nat) (l : Layout) (depth : Nat) (r : List Char) :
    readMember fuel (l.gap depth ++ r) = readMember fuel r := by
  rw [← readMember_skipBlanks, skipBlanks_gap, readMember_skipBlanks]

/-- A member is read if its value is. -/
theorem readMember_quoted {k : Text} (hk : k.IsScalar) {j : Json} {r rest : List Char} {fuel : Nat}
    (h : readValue fuel r = some (j, rest)) :
    readMember (fuel + 1) (quoted k ++ ':' :: ' ' :: r) = some ((k, j), rest) := by
  obtain ⟨htext, hread⟩ := readQuoted_quoted hk (':' :: ' ' :: r)
  have hblank : readValue fuel (' ' :: r) = some (j, rest) := by
    rw [← readValue_skipBlanks, skipBlanks, if_pos (.inl rfl), readValue_skipBlanks, h]
  rw [htext, readMember, skipBlanks_cons _ (by decide)]
  simp [hread, skipBlanks_cons (c := ':') _ (by decide), hblank]

/-- An array is read if its first item and the others are. -/
theorem readValue_array {fuel : Nat} {j : Json} {js : List Json} {r s middle rest : List Char}
    {c : Char} (hr : skipBlanks r = c :: s) (hc : c ≠ ']')
    (hfirst : readValue fuel r = some (j, middle))
    (hothers : readItems fuel middle = some (js, rest)) :
    readValue (fuel + 1) ('[' :: r) = some (.array (j :: js), rest) := by
  rw [← readValue_skipBlanks, hr] at hfirst
  simp [readValue, skipBlanks_cons (c := '[') r (by decide), hr, hc, hfirst, hothers]

/-- An object is read if its first member and the others are. -/
theorem readValue_object {fuel : Nat} {m : Text × Json} {ms : List (Text × Json)}
    {r s middle rest : List Char} {c : Char} (hr : skipBlanks r = c :: s) (hc : c ≠ '\x7d')
    (hfirst : readMember fuel r = some (m, middle))
    (hothers : readMembers fuel middle = some (ms, rest)) :
    readValue (fuel + 1) ('\x7b' :: r) = some (.object (m :: ms), rest) := by
  rw [← readMember_skipBlanks, hr] at hfirst
  simp [readValue, skipBlanks_cons (c := '\x7b') r (by decide), hr, hc, hfirst, hothers]

theorem readItems_comma {fuel : Nat} {j : Json} {js : List Json} {r middle rest : List Char}
    (hfirst : readValue fuel r = some (j, middle))
    (hothers : readItems fuel middle = some (js, rest)) :
    readItems (fuel + 1) (',' :: r) = some (j :: js, rest) := by
  rw [readItems, skipBlanks_cons (c := ',') _ (by decide)]
  simp [hfirst, hothers]

theorem readMembers_comma {fuel : Nat} {m : Text × Json} {ms : List (Text × Json)}
    {r middle rest : List Char} (hfirst : readMember fuel r = some (m, middle))
    (hothers : readMembers fuel middle = some (ms, rest)) :
    readMembers (fuel + 1) (',' :: r) = some (m :: ms, rest) := by
  rw [readMembers, skipBlanks_cons (c := ',') _ (by decide)]
  simp [hfirst, hothers]

mutual

/-- A value is read back from what is written for it. -/
theorem readValue_write (l : Layout) (depth : Nat) (j : Json) (hj : j.IsScalar) {rest : List Char}
    (hrest : EndsNumber rest) (fuel : Nat) (hfuel : (write l depth j).length ≤ fuel) :
    readValue fuel (write l depth j ++ rest) = some (j, rest) := by
  obtain ⟨fuel, rfl⟩ : ∃ k, fuel = k + 1 :=
    Nat.exists_eq_add_of_le' (Nat.le_trans (length_write_pos l depth j) hfuel)
  match j, hj with
  | .null, _ => rw [write]; rfl
  | .bool true, _ => rw [write]; rfl
  | .bool false, _ => rw [write]; rfl
  | .integer n, _ =>
    obtain ⟨c, r, htext, hc⟩ := exists_toString_eq_cons n
    have hread := readNumber_integer n hrest
    rw [write, htext, List.cons_append] at *
    rw [readValue_number hc, hread]
  | .decimal isNegative digits exponent, _ =>
    obtain ⟨c, r, htext, hc⟩ := exists_decimalText_eq_cons isNegative digits exponent
    have hread := readNumber_decimal isNegative digits exponent hrest
    rw [write, htext, List.cons_append] at *
    rw [readValue_number hc, hread]
  | .text t, .text ht => rw [write, readValue_quoted ht]
  | .array [], _ =>
    rw [write]
    rfl
  | .array (j :: js), .array hjs =>
    rw [write] at hfuel ⊢
    simp only [List.length_cons, List.length_append] at hfuel
    obtain ⟨c, r, hwrite, hc⟩ := exists_write_eq_cons l (depth + 1) j
    have hfirst := readValue_write l (depth + 1) j (hjs j List.mem_cons_self)
      (endsNumber_writeItems l (depth + 1) depth js rest) fuel (by omega)
    have hothers := readItems_write l (depth + 1) depth js
      (fun i hi => hjs i (List.mem_cons_of_mem j hi)) rest fuel (by omega)
    have hstart : skipBlanks (l.gap (depth + 1) ++ (write l (depth + 1) j ++
        (writeItems l (depth + 1) js ++ (l.gap depth ++ ']' :: rest)))) =
        c :: (r ++ (writeItems l (depth + 1) js ++ (l.gap depth ++ ']' :: rest))) := by
      rw [skipBlanks_gap, skipBlanks_write, hwrite, List.cons_append]
    rw [← readValue_gap fuel l (depth + 1)] at hfirst
    have hread := readValue_array hstart hc.ne_bracket hfirst hothers
    simpa using hread
  | .object [], _ =>
    rw [write]
    rfl
  | .object ((k, j) :: ms), .object hks hjs =>
    rw [write] at hfuel ⊢
    simp only [List.length_cons, List.length_append] at hfuel
    obtain ⟨fuel, rfl⟩ : ∃ n, fuel = n + 1 := Nat.exists_eq_add_of_le' (by omega)
    have hvalue := readValue_write l (depth + 1) j (hjs (k, j) List.mem_cons_self)
      (endsNumber_writeMembers l (depth + 1) depth ms rest) fuel (by omega)
    have hfirst := readMember_quoted (hks (k, j) List.mem_cons_self) hvalue
    have hothers := readMembers_write l (depth + 1) depth ms
      (fun m hm => hks m (List.mem_cons_of_mem _ hm))
      (fun m hm => hjs m (List.mem_cons_of_mem _ hm))
      rest (fuel + 1) (by omega)
    have hstart : ∀ s : List Char, skipBlanks (l.gap (depth + 1) ++ (quoted k ++ s)) =
        '"' :: (k.flatMap escapePoint ++ '"' :: s) := by
      intro s
      rw [skipBlanks_gap, (readQuoted_quoted (hks (k, j) List.mem_cons_self) s).1,
        skipBlanks_cons _ (by decide)]
    rw [← readMember_gap (fuel + 1) l (depth + 1)] at hfirst
    have hread := readValue_object (hstart _) (by decide) hfirst hothers
    simpa using hread

theorem readItems_write (l : Layout) (depth outer : Nat) (js : List Json)
    (hjs : ∀ j ∈ js, j.IsScalar) (rest : List Char) (fuel : Nat)
    (hfuel : (writeItems l depth js).length < fuel) :
    readItems fuel (writeItems l depth js ++ (l.gap outer ++ ']' :: rest)) = some (js, rest) := by
  obtain ⟨fuel, rfl⟩ : ∃ n, fuel = n + 1 := Nat.exists_eq_add_of_le' (Nat.zero_lt_of_lt hfuel)
  match js with
  | [] =>
    rw [writeItems, List.nil_append, readItems, skipBlanks_gap, skipBlanks_cons _ (by decide)]
    rfl
  | j :: js =>
    rw [writeItems] at hfuel ⊢
    simp only [List.length_cons, List.length_append] at hfuel
    have hfirst := readValue_write l depth j (hjs j List.mem_cons_self)
      (endsNumber_writeItems l depth outer js rest) fuel (by omega)
    have hothers := readItems_write l depth outer js
      (fun i hi => hjs i (List.mem_cons_of_mem j hi)) rest fuel (by omega)
    rw [← readValue_gap fuel l depth] at hfirst
    simpa using readItems_comma hfirst hothers

theorem readMembers_write (l : Layout) (depth outer : Nat) (ms : List (Text × Json))
    (hks : ∀ m ∈ ms, m.1.IsScalar) (hjs : ∀ m ∈ ms, m.2.IsScalar) (rest : List Char) (fuel : Nat)
    (hfuel : (writeMembers l depth ms).length < fuel) :
    readMembers fuel (writeMembers l depth ms ++ (l.gap outer ++ '\x7d' :: rest)) =
      some (ms, rest) := by
  obtain ⟨fuel, rfl⟩ : ∃ n, fuel = n + 1 := Nat.exists_eq_add_of_le' (Nat.zero_lt_of_lt hfuel)
  match ms with
  | [] =>
    rw [writeMembers, List.nil_append, readMembers, skipBlanks_gap, skipBlanks_cons _ (by decide)]
    rfl
  | (k, j) :: ms =>
    rw [writeMembers] at hfuel ⊢
    simp only [List.length_cons, List.length_append] at hfuel
    obtain ⟨fuel, rfl⟩ : ∃ n, fuel = n + 1 := Nat.exists_eq_add_of_le' (by omega)
    have hvalue := readValue_write l depth j (hjs (k, j) List.mem_cons_self)
      (endsNumber_writeMembers l depth outer ms rest) fuel (by omega)
    have hfirst := readMember_quoted (hks (k, j) List.mem_cons_self) hvalue
    have hothers := readMembers_write l depth outer ms
      (fun m hm => hks m (List.mem_cons_of_mem _ hm))
      (fun m hm => hjs m (List.mem_cons_of_mem _ hm))
      rest (fuel + 1) (by omega)
    rw [← readMember_gap (fuel + 1) l depth] at hfirst
    simpa using readMembers_comma hfirst hothers

end

/-- A value whose texts consist of scalar values is read back from what is written for it. -/
theorem ofString?_write (l : Layout) {j : Json} (hj : j.IsScalar) :
    ofString? (String.ofList (write l 0 j)) = some j := by
  have hread := readValue_write l 0 j hj endsNumber_nil ((write l 0 j).length + 1) (by omega)
  rw [List.append_nil] at hread
  simp [ofString?, hread, skipBlanks]

end TypeAtlas.Json
