import TypeAtlas.Proofs.Java.Parser.Progress
import TypeAtlas.Proofs.Java.Programs.Lexemes

namespace TypeAtlas.Java

/-- The lexemes still to read. -/
def Cursor.lexemes (c : Cursor) : List Lexeme :=
  c.rest.map Token.lexeme

namespace Parser

variable {α β : Type} {before between after ls : List Lexeme} {l l' : Lexeme}

/-- `Parses p before a after` says that `p` reads `a` where the lexemes `before` are left, and
leaves `after`. -/
def Parses (p : Parser α) (before : List Lexeme) (a : α) (after : List Lexeme) : Prop :=
  ∀ c : Cursor, c.lexemes = before → ∃ c', p c = .ok a c' ∧ c'.lexemes = after

theorem Parses.pure (a : α) (ls : List Lexeme) : Parses (pure a) ls a ls :=
  fun c hc => ⟨c, rfl, hc⟩

theorem Parses.bind {p : Parser α} {f : α → Parser β} {a : α} {b : β}
    (hp : Parses p before a between) (hf : Parses (f a) between b after) :
    Parses (p >>= f) before b after := by
  intro c hc
  obtain ⟨c', hok, hc'⟩ := hp c hc
  rw [bind_of_ok hok]
  exact hf c' hc'

theorem exists_of_lexemes_eq_cons {c : Cursor} (h : c.lexemes = l :: ls) :
    ∃ t, t.lexeme = l ∧ next c = .ok t { c with rest := c.rest.tail } ∧
      c.rest.tail.map Token.lexeme = ls := by
  obtain ⟨rest, marks⟩ := c
  obtain ⟨t, rest, rfl, ht, hrest⟩ := List.map_eq_cons_iff.mp h
  exact ⟨t, ht, rfl, hrest⟩

/-- Of the next token only the lexeme is known. -/
theorem Parses.next {f : Token → Parser β} {b : β}
    (hf : ∀ t : Token, t.lexeme = l → Parses (f t) ls b after) :
    Parses (next >>= f) (l :: ls) b after := by
  intro c hc
  obtain ⟨t, ht, hnext, hrest⟩ := exists_of_lexemes_eq_cons hc
  rw [bind_of_ok hnext]
  exact hf t ht _ hrest

/-- Whether a lexeme is the wanted one. -/
def Want.fits (w : Want) (l : Option Lexeme) : Bool :=
  match w with
  | .text s => l.any (·.text == s)
  | .identifier => l.any (·.kind == .identifier)

theorem Want.matches_eq_fits (w : Want) (t : Option Token) :
    w.matches t = w.fits (t.map Token.lexeme) := by
  cases w <;> cases t <;> rfl

theorem Parses.expect {w : Want} {f : Token → Parser β} {b : β} (hw : w.fits (some l) = true)
    (hf : ∀ t : Token, t.lexeme = l → Parses (f t) ls b after) :
    Parses (expect w >>= f) (l :: ls) b after := by
  intro c hc
  obtain ⟨t, rfl, hnext, hrest⟩ := exists_of_lexemes_eq_cons hc
  have hexpect : Parser.expect w c = .ok t { c with rest := c.rest.tail } := by
    rw [Parser.expect, bind_of_ok hnext, Want.matches_eq_fits, Option.map_some, if_pos hw]
    rfl
  rw [bind_of_ok hexpect]
  exact hf t rfl _ hrest

theorem Parses.identifier (h : l.kind = .identifier) :
    Parses identifier (l :: ls) l.text ls := by
  refine .expect (by simp [Want.fits, h]) fun t ht => ?_
  rw [← ht]
  exact .pure t.text ls

/-- The wanted lexeme is passed over. -/
theorem Parses.pass {w : Want} {k : PUnit → Parser β} {b : β} (hw : w.fits (some l) = true)
    (hk : Parses (k ⟨⟩) ls b after) :
    Parses (Functor.discard (Parser.expect w) >>= k) (l :: ls) b after := by
  have hexpect : Parses (Parser.expect w >>= fun _ => Pure.pure PUnit.unit) (l :: ls) ⟨⟩ ls :=
    .expect hw fun _ _ => .pure _ _
  exact .bind hexpect hk

/-- Whether the lexemes start with those wanted. -/
def seen : List Want → List Lexeme → Bool
  | [], _ => true
  | w :: ws, ls => w.fits ls.head? && seen ws ls.tail

theorem seen_map_lexeme (ws : List Want) (ts : List Token) :
    seen ws (ts.map Token.lexeme) = ws.zipIdx.all fun (w, k) => w.matches ts[k]? := by
  induction ws generalizing ts with
  | nil => rfl
  | cons w ws ih =>
    rw [seen, ← List.map_tail, ih, List.zipIdx_cons, List.all_cons, List.zipIdx_succ, List.all_map,
      List.head?_map, ← Want.matches_eq_fits, List.head?_eq_getElem?]
    simp [Function.comp_def]

theorem Parses.see {ws : List Want} {b : Bool} (h : seen ws ls = b) : Parses (see ws) ls b ls := by
  rintro c rfl
  refine ⟨c, ?_, rfl⟩
  rw [← h, Cursor.lexemes, seen_map_lexeme]
  rfl

theorem accept_eq_of_lexemes (ws : List Want) (c : Cursor) :
    accept ws c = if seen ws c.lexemes = true then
      .ok true { c with rest := c.rest.drop ws.length } else .ok false c := by
  rw [accept_eq, Cursor.lexemes, seen_map_lexeme]

theorem Parses.accept {s : String} (h : l.text = s) :
    Parses (Parser.accept [.text s]) (l :: ls) true ls := by
  intro c hc
  have hseen : seen [.text s] c.lexemes = true := by simp [hc, seen, Want.fits, h]
  rw [accept_eq_of_lexemes, if_pos hseen]
  refine ⟨_, rfl, ?_⟩
  rw [Cursor.lexemes, List.map_drop]
  exact congrArg (List.drop 1) hc

theorem Parses.acceptTwo {s s' : String} (h : l.text = s) (h' : l'.text = s') :
    Parses (Parser.accept [.text s, .text s']) (l :: l' :: ls) true ls := by
  intro c hc
  have hseen : seen [.text s, .text s'] c.lexemes = true := by simp [hc, seen, Want.fits, h, h']
  rw [accept_eq_of_lexemes, if_pos hseen]
  refine ⟨_, rfl, ?_⟩
  rw [Cursor.lexemes, List.map_drop]
  exact congrArg (List.drop 2) hc

theorem accept_eq_of_not_seen {ws : List Want} {c : Cursor} (h : seen ws c.lexemes = false) :
    accept ws c = .ok false c := by
  rw [accept_eq_of_lexemes, if_neg (Bool.eq_false_iff.mp h)]

theorem Parses.notAccept {ws : List Want} (h : seen ws ls = false) :
    Parses (Parser.accept ws) ls false ls := by
  rintro c rfl
  exact ⟨c, accept_eq_of_not_seen h, rfl⟩

theorem Parses.seeKind {k : TokenKind} {b : Bool} (h : (ls.head?.any (·.kind == k)) = b) :
    Parses (seeKind k) ls b ls := by
  rintro c rfl
  refine ⟨c, ?_, rfl⟩
  rw [← h, Cursor.lexemes, List.head?_map, Option.any_map, List.head?_eq_getElem?]
  rfl

theorem Parses.seeAnyOf {texts : List String} {b : Bool}
    (h : (ls.head?.any fun l => texts.contains l.text) = b) :
    Parses (seeAnyOf texts) ls b ls := by
  rintro c rfl
  refine ⟨c, ?_, rfl⟩
  rw [← h, Cursor.lexemes, List.head?_map, Option.any_map, List.head?_eq_getElem?]
  rfl

theorem seeAnnotationUse_eq {c : Cursor} (h : ∀ l ∈ c.lexemes.head?, l.kind ≠ .atSign) :
    seeAnnotationUse 0 c = .ok false c := by
  have hsign : (c.rest[0]?.any (·.kind == .atSign)) = false := by
    rw [Cursor.lexemes, List.head?_map, List.head?_eq_getElem?] at h
    cases ht : c.rest[0]? with
    | none => rfl
    | some t => simpa [ht, Token.lexeme] using h
  change EStateM.Result.ok (c.rest[0]?.any (·.kind == .atSign) && _) c = _
  rw [hsign]
  rfl

theorem Parses.notSeeAnnotationUse (h : ∀ l ∈ ls.head?, l.kind ≠ .atSign) :
    Parses (seeAnnotationUse 0) ls false ls := by
  rintro c rfl
  exact ⟨c, seeAnnotationUse_eq h, rfl⟩

theorem Parses.atEnd {b : Bool} (h : ls.isEmpty = b) : Parses atEnd ls b ls := by
  rintro c rfl
  refine ⟨c, ?_, rfl⟩
  rw [← h, Cursor.lexemes, List.isEmpty_map]
  rfl

section Choices

variable {b : Parser Bool} {p q : Parser α} {a : α}

theorem Parses.ifTrue (hb : Parses b before true between) (hp : Parses p between a after) :
    Parses (b >>= fun x => if x = true then p else q) before a after :=
  .bind hb hp

theorem Parses.ifFalse (hb : Parses b before false between) (hq : Parses q between a after) :
    Parses (b >>= fun x => if x = true then p else q) before a after :=
  .bind hb hq

theorem Parses.condTrue (hp : Parses p before a after) :
    Parses (if true = true then p else q) before a after :=
  hp

theorem Parses.condFalse (hq : Parses q before a after) :
    Parses (if false = true then p else q) before a after :=
  hq

end Choices

section Loops

/-- The rounds of a loop: each but the last reads a lexeme. -/
inductive Looped (p : Parser (List α × Bool)) :
    List Lexeme → List α → List Lexeme → Prop
  | last {found : List α} {before after : List Lexeme} :
      Parses p before (found, false) after → Looped p before found after
  | more {found rest : List α} {before between after : List Lexeme} :
      Parses p before (found, true) between → between.length < before.length →
        Looped p between rest after → Looped p before (found ++ rest) after

theorem Looped.cons {p : Parser (List α × Bool)} {a : α} {rest : List α}
    (h : Looped p between rest after) (hp : Parses p before ([a], true) between)
    (hlt : between.length < before.length) : Looped p before (a :: rest) after :=
  .more hp hlt h

theorem Looped.parses_go {p : Parser (List α × Bool)} {found : List α}
    (h : Looped p before found after) (fuel : List Token) (hfuel : before.length ≤ fuel.length) :
    Parses (whileMore.go p fuel) before found after := by
  induction h generalizing fuel with
  | last hp =>
    cases fuel with
    | nil => exact .bind hp (.pure _ _)
    | cons t fuel => exact .bind hp (.pure _ _)
  | more hp hlt _ ih =>
    cases fuel with
    | nil => exact absurd (Nat.lt_of_lt_of_le hlt hfuel) (Nat.not_lt_zero _)
    | cons t fuel =>
      have hrest := ih fuel (Nat.le_of_lt_succ (Nat.lt_of_lt_of_le hlt hfuel))
      exact .bind hp (.bind hrest (.pure _ _))

theorem Looped.parses {p : Parser (List α × Bool)} {found : List α}
    (h : Looped p before found after) : Parses (whileMore p) before found after := by
  rintro c rfl
  exact h.parses_go c.rest (by simp [Cursor.lexemes]) c rfl

/-- The rounds of a loop with a test before each. -/
inductive Repeated (more : Parser Bool) (p : Parser α) :
    List Lexeme → List α → List Lexeme → Prop
  | stop {before after : List Lexeme} :
      Parses more before false after → Repeated more p before [] after
  | step {a : α} {rest : List α} {before between between' after : List Lexeme} :
      Parses more before true between → Parses p between a between' →
        between'.length < before.length → Repeated more p between' rest after →
          Repeated more p before (a :: rest) after

variable {more : Parser Bool} {p : Parser α} {as : List α}

theorem Repeated.whileM (h : Repeated more p before as after) :
    Parses (whileM more p) before as after := by
  refine Looped.parses ?_
  induction h with
  | stop hmore => exact .last (.bind (.ifFalse hmore (.pure none _)) (.pure _ _))
  | @step a _ _ _ _ _ hmore hp hlt _ ih =>
    refine ih.cons (.bind (.ifTrue hmore (.bind hp (.pure (some a) _))) ?_) hlt
    exact .pure _ _

theorem Parses.untilNone {p : Parser (Option α)} (h : Parses p before none after) :
    Parses (Parser.untilNone p) before [] after :=
  Looped.parses (.last (.bind h (.pure _ _)))

theorem Repeated.untilM (h : Repeated (not <$> more) p before as after) :
    Parses (untilM more p) before as after :=
  h.whileM

theorem Parses.not {b : Bool} (h : Parses more before b after) :
    Parses (Bool.not <$> more) before (!b) after :=
  .bind h (.pure _ _)

theorem Repeated.manyWith {a : α} (hp : Parses p before a between)
    (h : Repeated more p between as after) : Parses (manyWith more p) before (a :: as) after :=
  .bind hp (.bind h.whileM (.pure _ _))

end Loops

end Parser

end TypeAtlas.Java
