import TypeAtlas.Proofs.Java.Words

namespace TypeAtlas.Java

/-- A token without its place. -/
structure Lexeme where
  kind : TokenKind
  text : String
  deriving DecidableEq, Repr, Inhabited

def Token.lexeme (t : Token) : Lexeme where
  kind := t.kind
  text := t.text

/-- A character that a word may start with. -/
def startsWord (c : Char) : Bool :=
  c.isAlpha || c = '_' || c = '$'

def continuesWord (c : Char) : Bool :=
  startsWord c || c.isDigit

/-- A word in letters, digits, underscores and dollar signs that does not start with a digit. -/
def isPlainWord (w : String) : Bool :=
  match w.toList with
  | [] => false
  | c :: cs => startsWord c && cs.all continuesWord

namespace Lexeme

def word (w : String) : Lexeme where
  kind := Token.kindOfWord w
  text := w

def separator (c : Char) : Lexeme where
  kind := .separator
  text := .singleton c

def operator (c : Char) : Lexeme where
  kind := .operator
  text := .singleton c

end Lexeme

/-- The operators in types and imports. -/
def typeMarks : List Char :=
  ['<', '>', '?', '*']

/-- What a source text is put together from: lexemes, and the blanks between them. -/
inductive Piece
  | word (w : String)
  | separator (c : Char)
  | operator (c : Char)
  | blank (c : Char)
  deriving DecidableEq, Repr, Inhabited

namespace Piece

def lexeme? : Piece → Option Lexeme
  | .word w => some (.word w)
  | .separator c => some (.separator c)
  | .operator c => some (.operator c)
  | .blank _ => none

def text : Piece → Text
  | .word w => w
  | .separator c | .operator c | .blank c => [c.toNat]

def isWord : Piece → Bool
  | .word _ => true
  | _ => false

end Piece

def lexemesOf (ps : List Piece) : List Lexeme :=
  ps.filterMap Piece.lexeme?

def textOf (ps : List Piece) : Text :=
  ps.flatMap Piece.text

/-- Pieces that can be told apart in their text: no word, point or angle bracket runs into what
comes after it. -/
inductive Legible : List Piece → Prop
  | nil : Legible []
  | word {w : String} {ps : List Piece} :
      isPlainWord w = true → (∀ p ∈ ps.head?, p.isWord = false) → Legible ps →
        Legible (.word w :: ps)
  | separator {c : Char} {ps : List Piece} :
      c ∈ Token.separators → (c = '.' → ∀ p ∈ ps.head?, p.isWord = true ∨ p = .operator '*') →
        Legible ps → Legible (.separator c :: ps)
  | operator {c : Char} {ps : List Piece} :
      c ∈ typeMarks → (c = '<' → ∀ p ∈ ps.head?, p ≠ .operator '<') → Legible ps →
        Legible (.operator c :: ps)
  | blank {c : Char} {ps : List Piece} :
      c ∈ [' ', '\n'] → Legible ps → Legible (.blank c :: ps)

@[simp] theorem lexemesOf_nil : lexemesOf [] = [] :=
  rfl

@[simp] theorem lexemesOf_append (ps qs : List Piece) :
    lexemesOf (ps ++ qs) = lexemesOf ps ++ lexemesOf qs :=
  List.filterMap_append

@[simp] theorem lexemesOf_word (w : String) (ps : List Piece) :
    lexemesOf (.word w :: ps) = .word w :: lexemesOf ps :=
  rfl

@[simp] theorem lexemesOf_separator (c : Char) (ps : List Piece) :
    lexemesOf (.separator c :: ps) = .separator c :: lexemesOf ps :=
  rfl

@[simp] theorem lexemesOf_operator (c : Char) (ps : List Piece) :
    lexemesOf (.operator c :: ps) = .operator c :: lexemesOf ps :=
  rfl

@[simp] theorem lexemesOf_blank (c : Char) (ps : List Piece) :
    lexemesOf (.blank c :: ps) = lexemesOf ps :=
  rfl

@[simp] theorem textOf_nil : textOf [] = [] :=
  rfl

@[simp] theorem textOf_cons (p : Piece) (ps : List Piece) :
    textOf (p :: ps) = p.text ++ textOf ps :=
  rfl

@[simp] theorem textOf_append (ps qs : List Piece) : textOf (ps ++ qs) = textOf ps ++ textOf qs :=
  List.flatMap_append

section Characters

/-- What the first character of a word is taken for. -/
structure OpensWord (c : Nat) : Prop where
  isBlank : Text.isBlank c = false
  ne_slash : c ≠ '/'.toNat
  ne_at : c ≠ '@'.toNat
  ne_point : c ≠ '.'.toNat
  separatorAt? : separatorAt? c = false
  ne_quote : c ≠ '"'.toNat ∧ c ≠ '\''.toNat
  isDecimal : isDecimal c = false
  isDigit : Text.isDigit c = false
  beginsName : Text.beginsName c = true

/-- What all characters of a word are, and none of which is part of another lexeme or an escape. -/
structure BelongsToWord (c : Nat) : Prop where
  continuesName : Text.continuesName c = true
  ne_equals : c ≠ '='.toNat
  ne_backslash : c ≠ '\\'.toNat
  ne_less : c ≠ '<'.toNat

theorem toNat_lt_of_continuesWord {c : Char} (h : continuesWord c = true) : c.toNat < 128 := by
  rw [continuesWord, startsWord] at h
  delta Char.isAlpha Char.isUpper Char.isLower Char.isDigit at h
  simp only [Bool.or_eq_true, Bool.and_eq_true, decide_eq_true_eq, ge_iff_le,
    UInt32.le_iff_toNat_le] at h
  change c.val.toNat < 128
  rcases h with ((((h | h) | h) | h) | h)
  · exact Nat.lt_of_le_of_lt h.2 (by decide)
  · exact Nat.lt_of_le_of_lt h.2 (by decide)
  · rw [h]
    decide
  · rw [h]
    decide
  · exact Nat.lt_of_le_of_lt h.2 (by decide)

theorem opensWord_table : ∀ n : Fin 128, startsWord (Char.ofNat n) = true →
    Text.isBlank n = false ∧ n.val ≠ '/'.toNat ∧ n.val ≠ '@'.toNat ∧ n.val ≠ '.'.toNat ∧
      separatorAt? n = false ∧ (n.val ≠ '"'.toNat ∧ n.val ≠ '\''.toNat) ∧ isDecimal n = false ∧
        Text.isDigit n = false ∧ Text.beginsName n = true := by
  decide

theorem belongsToWord_table : ∀ n : Fin 128, continuesWord (Char.ofNat n) = true →
    Text.continuesName n = true ∧ n.val ≠ '='.toNat ∧ n.val ≠ '\\'.toNat ∧ n.val ≠ '<'.toNat := by
  decide

theorem opensWord_of_startsWord {c : Char} (h : startsWord c = true) : OpensWord c.toNat := by
  have hlt : c.toNat < 128 := toNat_lt_of_continuesWord (by rw [continuesWord, h, Bool.true_or])
  obtain ⟨h1, h2, h3, h4, h5, h6, h7, h8, h9⟩ :=
    opensWord_table ⟨c.toNat, hlt⟩ (by rwa [Char.ofNat_toNat])
  exact ⟨h1, h2, h3, h4, h5, h6, h7, h8, h9⟩

theorem belongsToWord_of_continuesWord {c : Char} (h : continuesWord c = true) :
    BelongsToWord c.toNat := by
  obtain ⟨h1, h2, h3, h4⟩ :=
    belongsToWord_table ⟨c.toNat, toNat_lt_of_continuesWord h⟩ (by rwa [Char.ofNat_toNat])
  exact ⟨h1, h2, h3, h4⟩

theorem toString_ofString (s : String) : Text.toString (Text.ofString s) = s := by
  have hchar : ∀ c ∈ s.toList, (if c.toNat.isValidChar then Char.ofNat c.toNat else '\uFFFD') = c :=
    fun c _ => (if_pos c.valid).trans (Char.ofNat_toNat c)
  rw [Text.toString, Text.ofString, List.map_map]
  conv_rhs => rw [← String.ofList_toList (s := s)]
  congr 1
  exact (List.map_congr_left hchar).trans (List.map_id _)

theorem toString_singleton (c : Char) : Text.toString [c.toNat] = String.singleton c := by
  have h := toString_ofString (String.singleton c)
  rwa [Text.ofString, String.toList_singleton, List.map_singleton] at h

theorem exists_of_isPlainWord {w : String} (h : isPlainWord w = true) :
    ∃ c cs, Text.ofString w = c :: cs ∧ OpensWord c ∧ ∀ d ∈ Text.ofString w, BelongsToWord d := by
  unfold isPlainWord at h
  split at h
  · cases h
  · rename_i c cs hw
    rw [Bool.and_eq_true, List.all_eq_true] at h
    refine ⟨c.toNat, cs.map Char.toNat, ?_, opensWord_of_startsWord h.1, fun d hd => ?_⟩
    · rw [Text.ofString, hw, List.map_cons]
    obtain ⟨e, he, rfl⟩ := List.mem_map.mp hd
    refine belongsToWord_of_continuesWord ?_
    rw [hw] at he
    obtain rfl | he := List.mem_cons.mp he
    · rw [continuesWord, h.1, Bool.true_or]
    · exact h.2 e he

/-- The marks are no part of a word, an assignment or an escape, and none of them is blank. -/
theorem marks_table {c : Char} (hc : c ∈ Token.separators ++ typeMarks) :
    Text.continuesName c.toNat = false ∧ c.toNat ≠ '='.toNat ∧ c.toNat ≠ '\\'.toNat ∧
      Text.isBlank c.toNat = false := by
  simp only [Token.separators, typeMarks, List.cons_append, List.nil_append, List.mem_cons,
    List.not_mem_nil, or_false] at hc
  rcases hc with rfl | rfl | rfl | rfl | rfl | rfl | rfl | rfl | rfl | rfl | rfl | rfl | rfl <;>
    decide

theorem blanks_table {c : Char} (hc : c ∈ [' ', '\n']) :
    Text.continuesName c.toNat = false ∧ c.toNat ≠ '='.toNat ∧ c.toNat ≠ '\\'.toNat ∧
      c.toNat ≠ '<'.toNat ∧ Text.isBlank c.toNat = true := by
  simp only [List.mem_cons, List.not_mem_nil, or_false] at hc
  rcases hc with rfl | rfl <;> decide

theorem toNat_ne_less {c : Char} (h : c ≠ '<') : c.toNat ≠ '<'.toNat :=
  fun heq => h (Char.toNat_inj.mp heq)

end Characters

/-- A text of pieces has no equals sign and no backslash in it. -/
theorem Legible.not_mem {ps : List Piece} (h : Legible ps) :
    '='.toNat ∉ textOf ps ∧ '\\'.toNat ∉ textOf ps := by
  induction h with
  | nil => simp
  | word hw _ _ ih =>
    obtain ⟨_, _, _, _, hall⟩ := exists_of_isPlainWord hw
    rw [textOf_cons, List.mem_append, not_or, List.mem_append, not_or]
    exact ⟨⟨fun hmem => (hall _ hmem).ne_equals rfl, ih.1⟩,
      fun hmem => (hall _ hmem).ne_backslash rfl, ih.2⟩
  | separator hc _ _ ih =>
    obtain ⟨_, hequals, hbackslash, _⟩ := marks_table (List.mem_append_left _ hc)
    exact ⟨List.not_mem_cons_of_ne_of_not_mem hequals.symm ih.1,
      List.not_mem_cons_of_ne_of_not_mem hbackslash.symm ih.2⟩
  | operator hc _ _ ih =>
    obtain ⟨_, hequals, hbackslash, _⟩ := marks_table (List.mem_append_right _ hc)
    exact ⟨List.not_mem_cons_of_ne_of_not_mem hequals.symm ih.1,
      List.not_mem_cons_of_ne_of_not_mem hbackslash.symm ih.2⟩
  | blank hc _ ih =>
    obtain ⟨_, hequals, hbackslash, _⟩ := blanks_table hc
    exact ⟨List.not_mem_cons_of_ne_of_not_mem hequals.symm ih.1,
      List.not_mem_cons_of_ne_of_not_mem hbackslash.symm ih.2⟩

/-- A text of pieces goes on with a name only where its first piece is a word. -/
theorem Legible.continuesName_head {ps : List Piece} (h : Legible ps)
    (hps : ∀ p ∈ ps.head?, p.isWord = false) :
    ∀ c ∈ (textOf ps).head?, Text.continuesName c = false := by
  rintro c hc
  cases h with
  | nil => cases hc
  | word => exact absurd (hps _ rfl) (by simp [Piece.isWord])
  | separator hmem =>
    obtain rfl := Option.some.inj hc
    exact (marks_table (List.mem_append_left _ hmem)).1
  | operator hmem =>
    obtain rfl := Option.some.inj hc
    exact (marks_table (List.mem_append_right _ hmem)).1
  | blank hmem =>
    obtain rfl := Option.some.inj hc
    exact (blanks_table hmem).1

/-- Before a word or a star a point is not taken for a part of something else. -/
theorem Legible.isDigit_head {ps : List Piece} (h : Legible ps)
    (hps : ∀ p ∈ ps.head?, p.isWord = true ∨ p = .operator '*') :
    ∀ c ∈ (textOf ps).head?, Text.isDigit c = false ∧ c ≠ '.'.toNat := by
  rintro c hc
  cases h with
  | nil => cases hc
  | word hw =>
    obtain ⟨d, ds, hd, hopens, _⟩ := exists_of_isPlainWord hw
    rw [textOf_cons, Piece.text, hd] at hc
    obtain rfl := Option.some.inj hc
    exact ⟨hopens.isDigit, hopens.ne_point⟩
  | separator | blank => exact absurd (hps _ rfl) (by simp [Piece.isWord])
  | operator =>
    obtain hword | hstar := hps _ rfl
    · cases hword
    · obtain rfl := Piece.operator.inj hstar
      obtain rfl := Option.some.inj hc
      decide

theorem Legible.ne_less_head {ps : List Piece} (h : Legible ps)
    (hps : ∀ p ∈ ps.head?, p ≠ .operator '<') : some '<'.toNat ≠ (textOf ps).head? := by
  cases h with
  | nil => simp
  | word hw =>
    obtain ⟨d, ds, hd, _, hall⟩ := exists_of_isPlainWord hw
    rw [textOf_cons, Piece.text, hd]
    intro heq
    exact (hall d (hd ▸ List.mem_cons_self)).ne_less (Option.some.inj heq).symm
  | @separator c _ hmem =>
    have hc : c ≠ '<' := by
      rintro rfl
      revert hmem
      decide
    intro heq
    exact toNat_ne_less hc (Option.some.inj heq).symm
  | @operator c _ hmem =>
    have hc : c ≠ '<' := fun heq => hps _ rfl (congrArg _ heq)
    intro heq
    exact toNat_ne_less hc (Option.some.inj heq).symm
  | blank hmem =>
    intro heq
    exact (blanks_table hmem).2.2.2.1 (Option.some.inj heq).symm

theorem operatorAt?_of_mem_typeMarks {c : Char} {t : Text} (hc : c ∈ typeMarks)
    (ht : '='.toNat ∉ t) (hless : c = '<' → some '<'.toNat ≠ t.head?) :
    operatorAt? (c.toNat :: t) = some (String.singleton c) := by
  simp only [typeMarks, List.mem_cons, List.not_mem_nil, or_false] at hc
  rcases hc with rfl | rfl | rfl | rfl <;> rcases t with _ | ⟨d, _ | ⟨e, _ | ⟨f, t⟩⟩⟩ <;>
    simp_all [operatorAt?, Token.operators, Text.ofString, List.isPrefixOf]

namespace Scan

variable {s : Scan} {t : Text}

theorem step_word (text : Text) {w : String} (hw : isPlainWord w = true)
    (hbreak : ∀ c ∈ t.head?, Text.continuesName c = false) (hs : s.rest = Text.ofString w ++ t) :
    ∃ tok s', s.step text = .ok (some tok, s') ∧ (Piece.word w).lexeme? = some tok.lexeme ∧
      s'.rest = t := by
  obtain ⟨c, cs, hlist, hopens, hall⟩ := exists_of_isPlainWord hw
  have hnone : t.takeWhile Text.continuesName = [] := by
    cases t with
    | nil => rfl
    | cons d t => exact List.takeWhile_cons_of_neg (by simp [hbreak d rfl])
  have htake : s.rest.takeWhile Text.continuesName = Text.ofString w := by
    rw [hs, List.takeWhile_append_of_pos fun d hd => (hall d hd).continuesName, hnone,
      List.append_nil]
  have hlength : s.rest.take (Text.ofString w).length = Text.ofString w := by
    rw [hs, List.take_left]
  have hdrop : s.rest.drop (Text.ofString w).length = t := by
    rw [hs, List.drop_left]
  have hrest : s.rest = c :: (cs ++ t) := by
    rw [hs, hlist, List.cons_append]
  refine ⟨(s.token (Token.kindOfWord w) (Text.ofString w).length).1,
    (s.token (Token.kindOfWord w) (Text.ofString w).length).2, ?_, ?_, hdrop⟩
  · have hdots : (Text.ofString "...").isPrefixOf (c :: (cs ++ t)) = false := by
      have hne : ((46 : Nat) == c) = false := beq_false_of_ne hopens.ne_point.symm
      simp [Text.ofString, List.isPrefixOf, hne]
    rw [hrest] at htake hlength
    unfold step
    simp only [hrest, htake, hlength, toString_ofString, hopens.isBlank, hopens.ne_slash,
      hopens.ne_at, hopens.ne_point, hopens.separatorAt?, hopens.ne_quote, hopens.isDecimal,
      hopens.beginsName, hdots, decide_false, Bool.false_and, Bool.or_false, Bool.false_eq_true,
      if_false, if_true]
  · simp only [token, Token.lexeme, hlength, toString_ofString, Piece.lexeme?, Lexeme.word]

/-- A blank and those after it are passed over. -/
theorem step_blank (text : Text) {c : Char} (hc : c ∈ [' ', '\n']) (hs : s.rest = c.toNat :: t) :
    ∃ s', s.step text = .ok (none, s') ∧ s'.rest = t.dropWhile Text.isBlank := by
  have hblank := (blanks_table hc).2.2.2.2
  refine ⟨s.skip (s.rest.takeWhile Text.isBlank).length, ?_, ?_⟩
  · unfold step
    simp only [hs, hblank, if_true]
  · rw [skip, hs, List.takeWhile_cons_of_pos hblank]
    simp only [List.length_cons, List.drop_succ_cons]
    calc t.drop (t.takeWhile Text.isBlank).length
      _ = (t.takeWhile Text.isBlank ++ t.dropWhile Text.isBlank).drop
          (t.takeWhile Text.isBlank).length := by rw [List.takeWhile_append_dropWhile]
      _ = t.dropWhile Text.isBlank := List.drop_left

/-- A point is a separator unless it starts a numeral or an ellipsis. -/
theorem step_point (text : Text) (hpoint : ∀ d ∈ t.head?, Text.isDigit d = false ∧ d ≠ '.'.toNat)
    (hs : s.rest = '.'.toNat :: t) :
    s.step text = .ok (some (s.token .separator 1).1, (s.token .separator 1).2) := by
  unfold step
  rw [hs]
  cases t with
  | nil => rfl
  | cons d t =>
    obtain ⟨hdigit, hd⟩ := hpoint d rfl
    have hdots : (Text.ofString "...").isPrefixOf ('.'.toNat :: d :: t) = false := by
      have hne : ¬ 46 = d := Ne.symm hd
      simp [Text.ofString, List.isPrefixOf, hne]
    simp only [hdots, List.head?_cons, Option.any_some, hdigit]
    rfl

theorem step_separator (text : Text) {c : Char} (hc : c ∈ Token.separators)
    (hpoint : c = '.' → ∀ d ∈ t.head?, Text.isDigit d = false ∧ d ≠ '.'.toNat)
    (hs : s.rest = c.toNat :: t) :
    ∃ tok s', s.step text = .ok (some tok, s') ∧
      (Piece.separator c).lexeme? = some tok.lexeme ∧ s'.rest = t := by
  refine ⟨(s.token .separator 1).1, (s.token .separator 1).2, ?_, ?_, ?_⟩
  · unfold step
    simp only [Token.separators, List.mem_cons, List.not_mem_nil, or_false] at hc
    obtain rfl | rfl | rfl | rfl | rfl | rfl | rfl | rfl | rfl := hc
    case inr.inr.inr.inr.inr.inr.inr.inr => exact step_point text (hpoint rfl) hs
    all_goals
      simp only [hs]
      rfl
  · simp only [token, Token.lexeme, hs, Piece.lexeme?, Lexeme.separator, List.take_succ_cons,
      List.take_zero]
    rw [toString_singleton]
  · rw [token, hs]
    rfl

theorem step_operator (text : Text) {c : Char} (hc : c ∈ typeMarks) (ht : '='.toNat ∉ t)
    (hless : c = '<' → some '<'.toNat ≠ t.head?) (hs : s.rest = c.toNat :: t) :
    ∃ tok s', s.step text = .ok (some tok, s') ∧
      (Piece.operator c).lexeme? = some tok.lexeme ∧ s'.rest = t := by
  have hoperator := operatorAt?_of_mem_typeMarks hc ht hless
  refine ⟨(s.token .operator 1).1, (s.token .operator 1).2, ?_, ?_, ?_⟩
  · unfold step
    simp only [hs, hoperator]
    simp only [typeMarks, List.mem_cons, List.not_mem_nil, or_false] at hc
    obtain rfl | rfl | rfl | rfl := hc <;> rfl
  · simp only [token, Token.lexeme, hs, Piece.lexeme?, Lexeme.operator, List.take_succ_cons,
      List.take_zero]
    rw [toString_singleton]
  · rw [token, hs]
    rfl

end Scan

/-- The blanks at the start of a text do not matter. -/
theorem Legible.exists_dropWhile {ps : List Piece} (h : Legible ps) :
    ∃ qs, Legible qs ∧ lexemesOf qs = lexemesOf ps ∧
      (textOf ps).dropWhile Text.isBlank = textOf qs := by
  induction h with
  | nil => exact ⟨[], .nil, rfl, rfl⟩
  | word hw hbreak h =>
    refine ⟨_, .word hw hbreak h, rfl, ?_⟩
    obtain ⟨c, cs, hlist, hopens, _⟩ := exists_of_isPlainWord hw
    rw [textOf_cons, Piece.text, hlist, List.cons_append,
      List.dropWhile_cons_of_neg (by simp [hopens.isBlank])]
  | separator hc hpoint h =>
    refine ⟨_, .separator hc hpoint h, rfl, List.dropWhile_cons_of_neg ?_⟩
    simp [(marks_table (List.mem_append_left _ hc)).2.2.2]
  | operator hc hless h =>
    refine ⟨_, .operator hc hless h, rfl, List.dropWhile_cons_of_neg ?_⟩
    simp [(marks_table (List.mem_append_right _ hc)).2.2.2]
  | blank hc _ ih =>
    obtain ⟨qs, hqs, hlexemes, htext⟩ := ih
    refine ⟨qs, hqs, hlexemes, ?_⟩
    rw [← htext]
    exact List.dropWhile_cons_of_pos (blanks_table hc).2.2.2.2

/-- A step reads the first lexeme of a text, or it passes over the blanks before it. -/
theorem Legible.step {s : Scan} {ps : List Piece} (h : Legible ps) (hs : s.rest = textOf ps)
    (hne : s.rest ≠ []) (text : Text) :
    ∃ found s' qs, s.step text = .ok (found, s') ∧ s'.rest.length < s.rest.length ∧
      Legible qs ∧ s'.rest = textOf qs ∧
        lexemesOf ps = (found.map Token.lexeme).toList ++ lexemesOf qs := by
  cases h with
  | nil => exact absurd hs hne
  | word hw hbreak h =>
    obtain ⟨tok, s', hstep, hlexeme, hrest⟩ :=
      Scan.step_word text hw (h.continuesName_head hbreak) hs
    refine ⟨some tok, s', _, hstep, ?_, h, hrest, ?_⟩
    · obtain ⟨c, cs, hlist, _⟩ := exists_of_isPlainWord hw
      rw [hrest, hs, textOf_cons, Piece.text, hlist, List.cons_append, List.length_cons,
        List.length_append]
      omega
    · rw [lexemesOf, List.filterMap_cons_some hlexeme]
      rfl
  | separator hc hpoint h =>
    obtain ⟨tok, s', hstep, hlexeme, hrest⟩ :=
      Scan.step_separator text hc (fun hc => h.isDigit_head (hpoint hc)) hs
    refine ⟨some tok, s', _, hstep, ?_, h, hrest, ?_⟩
    · rw [hrest, hs]
      exact Nat.lt_succ_self _
    · rw [lexemesOf, List.filterMap_cons_some hlexeme]
      rfl
  | operator hc hless h =>
    obtain ⟨tok, s', hstep, hlexeme, hrest⟩ :=
      Scan.step_operator text hc h.not_mem.1 (fun hc => h.ne_less_head (hless hc)) hs
    refine ⟨some tok, s', _, hstep, ?_, h, hrest, ?_⟩
    · rw [hrest, hs]
      exact Nat.lt_succ_self _
    · rw [lexemesOf, List.filterMap_cons_some hlexeme]
      rfl
  | blank hc h =>
    obtain ⟨qs, hqs, hlexemes, htext⟩ := h.exists_dropWhile
    obtain ⟨s', hstep, hs'⟩ := Scan.step_blank text hc hs
    refine ⟨none, s', qs, hstep, ?_, hqs, hs'.trans htext, hlexemes.symm⟩
    rw [hs', hs]
    exact Nat.lt_succ_of_le (List.dropWhile_sublist _).length_le

theorem Legible.eq_nil {ps : List Piece} (h : Legible ps) (htext : textOf ps = []) : ps = [] := by
  cases h with
  | nil => rfl
  | word hw =>
    obtain ⟨c, cs, hlist, _⟩ := exists_of_isPlainWord hw
    rw [textOf_cons, Piece.text, hlist] at htext
    cases htext
  | separator | operator | blank => cases htext

theorem Legible.tokens {ps : List Piece} {fuel : Nat} {s : Scan} (h : Legible ps)
    (hs : s.rest = textOf ps) (hfuel : s.rest.length ≤ fuel) (text : Text) :
    ∃ tokens, Scan.tokens text fuel s = .ok tokens ∧ tokens.map Token.lexeme = lexemesOf ps := by
  induction fuel generalizing s ps with
  | zero =>
    rw [List.eq_nil_of_length_eq_zero (Nat.le_zero.mp hfuel)] at hs
    obtain rfl := h.eq_nil hs.symm
    exact ⟨[], rfl, rfl⟩
  | succ fuel ih =>
    rw [Scan.tokens]
    by_cases hempty : s.rest = []
    · obtain rfl := h.eq_nil (hs.symm.trans hempty)
      rw [hempty]
      exact ⟨[], rfl, rfl⟩
    · obtain ⟨found, s', qs, hstep, hlt, hqs, hs', hlexemes⟩ := h.step hs hempty text
      -- A step leaves fewer characters, so the rest of the fuel will do for them.
      obtain ⟨tokens, htokens, hmap⟩ := ih hqs hs' (by omega)
      refine ⟨found.toList ++ tokens, ?_, ?_⟩
      · rw [if_neg (by simpa using hempty), hstep, ok_bind]
        simp only [htokens, ok_bind]
        rfl
      · rw [hlexemes, List.map_append, hmap]
        cases found <;> rfl

theorem unescapeFrom_eq {t : Text} (h : '\\'.toNat ∉ t) (text segment : Text) :
    unescapeFrom text segment t = .ok (segment.reverse ++ t) := by
  induction t generalizing segment with
  | nil => rw [unescapeFrom, List.append_nil]
  | cons c t ih =>
    obtain ⟨hc, ht⟩ := not_or.mp (mt List.mem_cons.mpr h)
    rw [unescapeFrom.eq_def]
    dsimp only
    rw [if_neg (Ne.symm hc), ih ht, List.reverse_cons, List.append_assoc, List.singleton_append]

theorem unescape_eq_self {t : Text} (h : '\\'.toNat ∉ t) : unescape t = .ok t :=
  unescapeFrom_eq h t []

/-- A text of pieces that can be told apart is split into their lexemes. -/
theorem Legible.tokenize {ps : List Piece} (h : Legible ps) :
    ∃ tokens, tokenize (textOf ps) = .ok tokens ∧ tokens.map Token.lexeme = lexemesOf ps := by
  rw [Java.tokenize, unescape_eq_self h.not_mem.2, ok_bind]
  exact h.tokens (s := { rest := textOf ps }) rfl (Nat.le_refl _) _

end TypeAtlas.Java
