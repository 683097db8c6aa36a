import TypeAtlas.Java.Parser.Unit
import TypeAtlas.Proofs.Java.Parser.Declarations

namespace TypeAtlas.Java

open TypeAtlas.Java.Parser TypeAtlas.Java.Tree

variable {tokens : List Token} {n k : Nat}

/-- Whether a phrase may start with another one, which its parser reads with as many tokens left. -/
def Phrase.mayStartWithOther : Phrase → Bool
  | .elementValue | .variableValue | .statement | .typeDeclaration => true
  | _ => false

namespace Grammar

theorem takes_ofDepth (h : (ofDepth k).ServesBelow tokens n) {phrase : Phrase}
    (hphrase : phrase.mayStartWithOther = false) :
    Takes tokens n (ofDepth (k + 1) phrase) (phrase.Yields tokens) := by
  cases phrase with
  | referenceType => exact takes_referenceType h
  | annotationUse => exact takes_annotationUse h
  | expression => exact takes_expression h
  | conditional => exact takes_conditional h
  | operand => exact takes_operand h
  | block => exact takes_block h
  | classBody => exact takes_braced fun m hm => takes_classMember (h m hm)
  | enumBody => exact takes_enumBody h
  | interfaceBody => exact takes_braced fun m hm => takes_interfaceMember (h m hm)
  | annotationBody => exact takes_braced fun m hm => takes_annotationMember (h m hm)
  | elementValue | variableValue | statement | typeDeclaration => contradiction

theorem serves_ofDepth_succ (h : (ofDepth k).ServesBelow tokens n)
    (hstart : ∀ phrase : Phrase, phrase.mayStartWithOther = false →
      Takes tokens n (ofDepth k phrase) (phrase.Yields tokens)) :
    (ofDepth (k + 1)).Serves tokens n := by
  intro phrase
  cases phrase with
  | elementValue =>
    exact takes_elementValue h (hstart .annotationUse rfl) (hstart .conditional rfl)
  | variableValue => exact takes_variableValue h (hstart .expression rfl)
  | statement => exact takes_statement h (hstart .block rfl) (hstart .expression rfl)
  | typeDeclaration => exact takes_typeDeclaration h (hstart .annotationUse rfl)
  | referenceType | annotationUse | expression | conditional | operand | block | classBody
  | enumBody | interfaceBody | annotationBody => exact takes_ofDepth h rfl

/-- Of two phrases that are read with the same tokens left, one starts with the other, so twice the
number of tokens bounds the depth. -/
theorem serves_ofDepth (hk : 2 * n + 2 ≤ k) : (ofDepth k).Serves tokens n := by
  induction n using Nat.strongRecOn generalizing k with
  | ind n ih =>
    have hbelow {j : Nat} (hj : 2 * n ≤ j) : (ofDepth j).ServesBelow tokens n :=
      fun m hm => ih m hm (by omega)
    -- One level for the phrase and one for the phrase that it starts with.
    obtain ⟨k, rfl⟩ : ∃ j, k = j + 2 := ⟨k - 2, by omega⟩
    exact serves_ofDepth_succ (hbelow (by omega)) fun phrase => takes_ofDepth (hbelow (by omega))

end Grammar

namespace Parser

variable {g : Grammar}

theorem takes_importName :
    Takes tokens n importName fun found => IsName tokens .identifier found.1.1 := by
  refine takes_identifier.bind fun m _ name hname => ?_
  refine .ite (reads_accept _) ?_ (.pure hname)
  exact (reads_accept _).bind fun _ _ => .pure hname

theorem takes_importClause : Takes tokens n importClause (IsImport (IsName tokens)) := by
  refine .pass fun m _ => ?_
  refine (reads_accept _).bind fun isStatic _ => ?_
  refine (reads_whileMore_of_ne_nil (P := fun name => IsName tokens .identifier name.1) ?_).bind
    fun names hnames => ?_
  · exact takes_importName.bind fun _ _ _ hfound => .pure (by simpa using hfound)
  refine .pass (.pure ?_)
  refine ⟨names.map (·.1), isStatic, names.any (·.2), ?_, fun name hname => ?_, rfl⟩
  · simpa using hnames.1
  · obtain ⟨entry, hentry, rfl⟩ := List.mem_map.mp hname
    exact hnames.2 entry hentry

theorem takes_unitMember (h : g.Serves tokens n) :
    Takes tokens n (unitMember g) (IsReadable (IsName tokens)) := by
  intro c hc hlen
  have hmember : Takes tokens n (do if ← accept [";"] then return .row [] else g .typeDeclaration)
      (IsReadable (IsName tokens)) :=
    .ifAccept (fun _ _ => .pure (by simp)) (h.readable .typeDeclaration)
  obtain ⟨t, c', hok, hread⟩ | ⟨e, c', herror, hgoes, he⟩ := hmember c hc hlen
  · refine .inl ⟨t, c', ?_, hread⟩
    simp only [unitMember, hok]
  · cases e with
    | endOfTokens =>
      refine .inr ⟨.unexpected "Unexpected end of input" (c'.rest[0]?.map (·.position)), c', ?_,
        hgoes, by simp⟩
      simp only [unitMember, herror]
      rfl
    | unexpected | openOperand =>
      refine .inr ⟨_, c', ?_, hgoes, he⟩
      simp only [unitMember, herror]
    | tooDeep => exact absurd rfl he

section Start

variable {α β : Type} {P : α → Prop} {Q : β → Cursor → Prop}

/-- How a whole parse ends: as `Q` has it, or with a fault that lies in the tokens. -/
def Ends (Q : β → Cursor → Prop) : EStateM.Result ParseFault Cursor β → Prop
  | .ok b c => Q b c
  | .error e _ => e ≠ .tooDeep

theorem Reads.ends_bind {p : Parser α} {f : α → Parser β} (hp : Reads tokens tokens.length p P)
    {c : Cursor} (hc : c.rest <:+ tokens)
    (hf : ∀ a c', c.GoesTo c' → P a → Ends Q (f a c')) : Ends Q ((p >>= f) c) := by
  obtain ⟨a, c', hok, hgoes, ha⟩ | ⟨e, c', herror, _, he⟩ := hp c hc hc.length_le
  · rw [bind_of_ok hok]
    exact hf a c' hgoes ha
  · rw [bind_of_error herror]
    exact he

theorem ends_bind_of_ok {p : Parser α} {f : α → Parser β} {c c' : Cursor} {a : α}
    (hp : p c = .ok a c') (hf : Ends Q (f a c')) : Ends Q ((p >>= f) c) := by
  rw [bind_of_ok hp]
  exact hf

end Start

/-- Nothing, or a package with its name. -/
def IsPackageIfAny (N : TokenKind → Text → Prop) (t : Tree) : Prop :=
  IsReadable N t ∧ (t = .absent ∨ ∃ parts, t = .node .packageDeclaration parts)

/-- Without a package clause the parse falls back to the start, the only mark there is. -/
theorem ends_packageClause (h : g.Serves tokens tokens.length) :
    Ends (fun t c => c.rest <:+ tokens ∧ IsPackageIfAny (IsName tokens) t)
      (packageClause g { rest := tokens }) := by
  have hpush : pushMark { rest := tokens } = .ok () { rest := tokens, marks := [tokens] } := rfl
  refine ends_bind_of_ok hpush ?_
  refine (reads_seeAnnotationUse 0).ends_bind List.suffix_rfl fun isNote c hc _ => ?_
  have hrest (notes : List Tree) (hnotes : ∀ t ∈ notes, IsReadable (IsName tokens) t) (c : Cursor)
      (hc : Cursor.GoesTo { rest := tokens, marks := [tokens] } c) :
      Ends (fun t c => c.rest <:+ tokens ∧ IsPackageIfAny (IsName tokens) t)
        ((do
          if ← accept ["package"] then
            keep
            let name ← qualifiedName
            discard <| expect ";"
            return .node .packageDeclaration [(.annotations, .list notes), (.name, .word name)]
          else
            rewind
            return .absent : Parser Tree) c) := by
    refine (reads_accept _).ends_bind hc.rest fun isPackage c' hc' _ => ?_
    obtain ⟨m, hm, hmarks⟩ := exists_mark_of_goesTo (c := { rest := tokens }) (hc.trans hc')
    cases isPackage with
    | true =>
      have hrest := hc'.rest.trans hc.rest
      obtain ⟨marks, hkeep, _⟩ := goesTo_keep (c := { rest := tokens }) hrest hm hmarks
      refine ends_bind_of_ok hkeep ?_
      refine takes_qualifiedName.reads.ends_bind hrest fun name c₁ hc₁ hname => ?_
      refine (takes_expect _).discard.reads.ends_bind (hc₁.rest.trans hrest) fun _ c₂ hc₂ _ => ?_
      have hreadable : IsReadable (IsName tokens) (.node .packageDeclaration
          [(.annotations, .list notes), (.name, .word name)]) :=
        isReadable_node_iff.mpr ⟨hname, by simpa using hnotes⟩
      exact ⟨(hc₂.rest.trans hc₁.rest).trans hrest, hreadable, .inr ⟨_, rfl⟩⟩
    | false => exact ends_bind_of_ok (rewind_eq hmarks) ⟨hm, isReadable_absent, .inl rfl⟩
  have huse := h.readable .annotationUse
  cases isNote with
  | true =>
    exact (takes_annotations huse).reads.ends_bind hc.rest fun notes c' hc' hnotes =>
      hrest notes hnotes c' (hc.trans hc')
  | false => exact hrest [] (by simp) c hc

/-- What a whole parse gives can be read in full. -/
theorem ends_compilationUnit (h : g.Serves tokens tokens.length) :
    Ends (fun t _ => IsUnit (IsName tokens) t) (compilationUnit g { rest := tokens }) := by
  have hpackage := ends_packageClause h
  rw [compilationUnit]
  cases hclause : packageClause g { rest := tokens } with
  | error e c =>
    rw [bind_of_error hclause]
    rw [hclause] at hpackage
    exact hpackage
  | ok package c =>
    rw [hclause] at hpackage
    obtain ⟨hrest, hreadable, hkind⟩ := hpackage
    refine ends_bind_of_ok hclause ?_
    refine (reads_whileM (reads_see _) takes_importClause).ends_bind hrest
      fun imports c' hc' himports => ?_
    refine (reads_untilM reads_atEnd (takes_unitMember h)).ends_bind (hc'.rest.trans hrest)
      fun types c'' _ htypes => ?_
    refine ⟨package, imports, types, rfl, hkind, himports, ?_⟩
    simpa [hreadable] using ⟨fun i hi => (himports i hi).isReadable, htypes⟩

end Parser

/-- A parse gives a tree that can be read in full, or a fault that lies in the tokens. -/
theorem parseTokens_cases (tokens : List Token) :
    (∃ t, parseTokens tokens = .ok t ∧ IsUnit (IsName tokens) t) ∨
      ∃ e, parseTokens tokens = .error e ∧ e ≠ .tooDeep := by
  have hends : Ends (fun t _ => IsUnit (IsName tokens) t)
      (compilationUnit (Grammar.ofDepth (8 * (tokens.length + 1))) { rest := tokens }) :=
    ends_compilationUnit (Grammar.serves_ofDepth (by omega))
  unfold parseTokens
  generalize compilationUnit _ _ = result at hends
  cases result with
  | ok t c => exact .inl ⟨t, rfl, hends⟩
  | error e c => exact .inr ⟨e, rfl, hends⟩

end TypeAtlas.Java
