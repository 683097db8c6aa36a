import Mathlib
import TypeAtlas.Failure
import TypeAtlas.Proofs.Except
import TypeAtlas.Proofs.Java.Parser.Unit

namespace TypeAtlas.Java

open TypeAtlas.Java.Tree

namespace SourceFault

/-- The faults that end an extraction and that nobody has foreseen: the first three end the split
into tokens, and the last is met where the tokens end right after an operand. -/
def unforeseen : List SourceFault :=
  [.lexical .nothingToShow, .lexical .numeralBrokenOff, .lexical .negativeEscape,
    .grammatical .openOperand]

/-- The text is to blame: neither a bound of the parser nor what the parser has made of the text. -/
def LiesInText : SourceFault → Prop
  | .lexical _ => True
  | .grammatical fault => fault ≠ .tooDeep
  | .structural _ => False

theorem LiesInText.rejection?_isSome_iff {fault : SourceFault} (h : fault.LiesInText) :
    fault.rejection?.isSome = true ↔ fault ∉ unforeseen := by
  cases fault with
  | lexical fault => cases fault <;> simp [rejection?, unforeseen]
  | grammatical fault =>
    cases fault with
    | tooDeep => exact absurd rfl h
    | unexpected | endOfTokens | openOperand => simp [rejection?, unforeseen]
  | structural fault => exact h.elim

end SourceFault

/-- The tree of a text can be read in full, and its names are names of the text. -/
theorem parse_cases (source : Text) :
    (∃ tokens t, tokenize source = .ok tokens ∧ parse source = .ok t ∧
        IsUnit (Parser.IsName tokens) t) ∨
      ∃ fault, parse source = .error fault ∧ fault.LiesInText := by
  unfold parse
  cases htokens : tokenize source with
  | error fault => exact .inr ⟨.lexical fault, rfl, trivial⟩
  | ok tokens =>
    rw [mapError_ok, ok_bind]
    obtain ⟨t, ht, hunit⟩ | ⟨fault, hfault, hdeep⟩ := parseTokens_cases tokens
    · exact .inl ⟨tokens, t, rfl, by rw [ht, mapError_ok], hunit⟩
    · exact .inr ⟨.grammatical fault, by rw [hfault, mapError_error], hdeep⟩

/-- Once a text is parsed its dependencies are found. -/
theorem extract_cases (implicitPrefix source : Text) :
    (∃ deps, extract implicitPrefix source = .ok deps) ∨
      ∃ fault, extract implicitPrefix source = .error fault ∧ fault.LiesInText := by
  unfold extract
  obtain ⟨tokens, t, _, ht, hunit⟩ | ⟨fault, hfault, htext⟩ := parse_cases source
  · obtain ⟨deps, hdeps⟩ := hunit.exists_dependencies implicitPrefix
    exact .inl ⟨deps, by rw [ht, ok_bind, hdeps, mapError_ok]⟩
  · exact .inr ⟨fault, by rw [hfault, error_bind], htext⟩

/-- An extraction from the text of the file at `path` ends with dependencies, or with a report on the
syntax of that file. -/
def IsExtracted (path : Path) : Except SourceFault Dependencies → Prop
  | .ok _ => True
  | .error fault => ∃ diagnostic, (Failure.badSource path fault).diagnostic? = some diagnostic ∧
      diagnostic.kind = .sourceSyntax ∧ diagnostic.givenPath = path.text

theorem isExtracted_error_iff {path : Path} {fault : SourceFault} :
    IsExtracted path (.error fault) ↔ fault.rejection?.isSome = true := by
  simp only [IsExtracted, Failure.diagnostic?]
  cases fault.rejection? with
  | none => simp
  | some rejection => simp

/-- Every text, whatever it holds, gives dependencies or is rejected with a report, save for the
faults that nobody has foreseen. -/
theorem isExtracted_iff (implicitPrefix source : Text) (path : Path) :
    IsExtracted path (extract implicitPrefix source) ↔
      ∀ fault ∈ SourceFault.unforeseen, extract implicitPrefix source ≠ .error fault := by
  obtain ⟨deps, hdeps⟩ | ⟨fault, hfault, htext⟩ := extract_cases implicitPrefix source
  · rw [hdeps]
    exact iff_of_true trivial fun _ _ => nofun
  · rw [hfault, isExtracted_error_iff, htext.rejection?_isSome_iff]
    constructor
    · rintro hforeseen fault' hfault' heq
      obtain rfl := Except.error.inj heq
      exact hforeseen hfault'
    · exact fun hne hmem => hne fault hmem rfl

/-- A numeral that breaks off at the end of a text leaves no report. -/
theorem not_isExtracted_numeralBrokenOff :
    ¬ IsExtracted (.ofText "A.java") (extract "java.lang." "0") := by
  have hfault : extract "java.lang." "0" = .error (.lexical .numeralBrokenOff) := by cbv
  rw [hfault, isExtracted_error_iff]
  simp [SourceFault.rejection?]

/-- Each of the faults that nobody has foreseen is met. -/
theorem exists_extract_eq_error {fault : SourceFault} (h : fault ∈ SourceFault.unforeseen) :
    ∃ source, extract "java.lang." source = .error fault := by
  simp only [SourceFault.unforeseen, List.mem_cons, List.not_mem_nil, or_false] at h
  obtain rfl | rfl | rfl | rfl := h
  · exact ⟨"0x.1", by cbv⟩
  · exact ⟨"0", by cbv⟩
  · exact ⟨"\\u-001", by cbv⟩
  · exact ⟨"@A(1", by cbv⟩

end TypeAtlas.Java
