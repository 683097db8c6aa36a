import TypeAtlas.Java.Lexer
import TypeAtlas.Proofs.Except

namespace TypeAtlas.Java

/-- A token that is an identifier or names a basic type is so because of its text, which is not
empty. -/
def Token.IsWord (t : Token) : Prop :=
  t.kind = .identifier ∨ t.kind = .basicType → t.text ≠ "" ∧ t.kind = kindOfWord t.text

theorem continuesName_of_beginsName {c : Nat} (h : Text.beginsName c = true) :
    Text.continuesName c = true := by
  rw [Text.continuesName, Bool.or_eq_true]
  exact .inl h

namespace Scan

/-- What a step finds, if it finds a token, is a word where it has to be one. -/
def FindsWord (found : Except LexFault (Option Token × Scan)) : Prop :=
  ∀ t s, found = .ok (some t, s) → t.IsWord

theorem FindsWord.ite {p : Prop} [Decidable p] {found other : Except LexFault (Option Token × Scan)}
    (h : p → FindsWord found) (h' : ¬ p → FindsWord other) :
    FindsWord (if p then found else other) := by
  split
  · exact h ‹_›
  · exact h' ‹_›

theorem findsWord_token (s : Scan) {k : TokenKind} (length : Nat) (h : k ≠ .identifier)
    (h' : k ≠ .basicType) :
    FindsWord (.ok (some (s.token k length).1, (s.token k length).2)) := by
  rintro t s' heq hkind
  cases heq
  exact (hkind.elim h h').elim

/-- What starts like a name and is as long as the name goes on is a word. -/
theorem findsWord_name {s : Scan} {c : Nat} {rest : Text} (hrest : s.rest = c :: rest)
    (hbegins : Text.beginsName c = true) :
    let length := ((c :: rest).takeWhile Text.continuesName).length
    let kind := Token.kindOfWord (Text.toString ((c :: rest).take length))
    FindsWord (.ok (some (s.token kind length).1, (s.token kind length).2)) := by
  rintro length kind t s' heq _
  cases heq
  refine ⟨?_, by rw [Scan.token, hrest]⟩
  have hlength : length = (rest.takeWhile Text.continuesName).length + 1 := by
    simp [length, continuesName_of_beginsName hbegins]
  rw [Scan.token, hrest, hlength, List.take_succ_cons, Text.toString, List.map_cons]
  simp

theorem findsWord_numeral (text rest : Text) (s : Scan) (length : Except NumeralFault Nat) :
    FindsWord (match length with
      | .ok n => .ok (some (s.token .literal n).1, (s.token .literal n).2)
      | .error (.fault cause) => .error cause
      | .error (.exponentDue here) =>
        .error (s.refuse text .hexFloatWithoutExponent rest[here]?)) := by
  split
  · exact findsWord_token s _ (by simp) (by simp)
  · nofun
  · nofun

/-- The branches stand in the order of the step. -/
theorem findsWord_step (text : Text) (s : Scan) : FindsWord (s.step text) := by
  unfold Scan.step
  dsimp only
  cases hrest : s.rest with
  | nil => nofun
  | cons c rest =>
    refine .ite (fun _ => nofun) fun _ => ?_
    refine .ite (fun _ => nofun) fun _ => ?_
    refine .ite (fun _ => by split <;> nofun) fun _ => ?_
    refine .ite (fun _ => findsWord_token s 3 (by simp) (by simp)) fun _ => ?_
    refine .ite (fun _ => findsWord_token s 1 (by simp) (by simp)) fun _ => ?_
    refine .ite (fun _ => findsWord_numeral text (c :: rest) s _) fun _ => ?_
    refine .ite (fun _ => findsWord_token s 1 (by simp) (by simp)) fun _ => ?_
    refine .ite (fun _ => ?_) fun _ => ?_
    · split
      · exact findsWord_token s _ (by simp) (by simp)
      · nofun
      · nofun
    refine .ite (fun _ => findsWord_numeral text (c :: rest) s _) fun _ => ?_
    refine .ite (fun hbegins => findsWord_name hrest hbegins) fun _ => ?_
    split
    · exact findsWord_token s _ (by simp) (by simp)
    · nofun

theorem isWord_of_tokens {text : Text} {fuel : Nat} {s : Scan} {tokens : List Token}
    (h : Scan.tokens text fuel s = .ok tokens) : ∀ t ∈ tokens, t.IsWord := by
  induction fuel generalizing s tokens with
  | zero =>
    obtain rfl := Except.ok.inj h
    nofun
  | succ fuel ih =>
    rw [Scan.tokens] at h
    split at h
    · obtain rfl := Except.ok.inj h
      nofun
    · obtain ⟨⟨found, s'⟩, hstep, h⟩ := bind_eq_ok_iff.mp h
      obtain ⟨rest, hrest, h⟩ := bind_eq_ok_iff.mp h
      obtain rfl := pure_eq_ok_iff.mp h
      intro t ht
      obtain ht | ht := List.mem_append.mp ht
      · obtain rfl : found = some t := Option.mem_toList.mp ht
        exact findsWord_step text s t s' hstep
      · exact ih hrest t ht

end Scan

theorem isWord_of_tokenize {source : Text} {tokens : List Token}
    (h : tokenize source = .ok tokens) : ∀ t ∈ tokens, t.IsWord := by
  obtain ⟨text, _, h⟩ := bind_eq_ok_iff.mp h
  exact Scan.isWord_of_tokens h

end TypeAtlas.Java
