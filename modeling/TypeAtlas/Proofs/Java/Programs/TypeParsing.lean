import TypeAtlas.Java.Parser.Unit
import TypeAtlas.Proofs.Java.Programs.Parsing
import TypeAtlas.Proofs.Java.Programs.Types

namespace TypeAtlas.Java

open TypeAtlas.Java.Parser

variable {after : List Lexeme}

/-- The next lexeme is none of these. -/
def Stops (texts : List String) (ls : List Lexeme) : Prop :=
  ∀ l ∈ ls.head?, l.text ∉ texts

theorem stops_cons {texts : List String} {l : Lexeme} (h : l.text ∉ texts) (ls : List Lexeme) :
    Stops texts (l :: ls) := by
  intro l' hl'
  obtain rfl := Option.some.inj hl'
  exact h

theorem Stops.mono {texts texts' : List String} {ls : List Lexeme} (h : Stops texts ls)
    (hsub : texts' ⊆ texts) : Stops texts' ls :=
  fun l hl hmem => h l hl (hsub hmem)

theorem Stops.seen {texts : List String} {ls : List Lexeme} (h : Stops texts ls) {s : String}
    (hs : s ∈ texts) (ws : List Want) : seen (.text s :: ws) ls = false := by
  cases ls with
  | nil => rfl
  | cons l ls =>
    have hne : l.text ≠ s := fun heq => h l rfl (heq ▸ hs)
    simp [Parser.seen, Want.fits, hne]

theorem Stops.notAccept {texts : List String} {ls : List Lexeme} (h : Stops texts ls) {s : String}
    (hs : s ∈ texts) (ws : List Want) : Parses (accept (.text s :: ws)) ls false ls :=
  .notAccept (h.seen hs ws)

theorem Stops.notSeeAnyOf {texts texts' : List String} {ls : List Lexeme} (h : Stops texts ls)
    (hsub : texts' ⊆ texts) : Parses (seeAnyOf texts') ls false ls := by
  refine .seeAnyOf ?_
  cases ls with
  | nil => rfl
  | cons l ls =>
    have hl : l.text ∉ texts' := fun hmem => h l rfl (hsub hmem)
    simpa using hl

theorem Identifier.parses (i : Identifier) (ls : List Lexeme) :
    Parses identifier (.word i.name :: ls) i.name ls :=
  .identifier i.isIdentifier

theorem repeated_brackets (n : Nat) (h : Stops ["["] after) :
    Repeated (accept ["[", "]"]) (pure ()) (lexemesOf (bracketPieces n) ++ after)
      (List.replicate n ()) after := by
  induction n with
  | zero => exact .stop (h.notAccept (by simp) _)
  | succ n ih =>
    rw [bracketPieces_succ, lexemesOf_separator, lexemesOf_separator, List.cons_append,
      List.cons_append, List.replicate_succ]
    refine .step (.acceptTwo rfl rfl) (.pure _ _) ?_ ih
    simp only [List.length_cons]
    omega

theorem parses_brackets (n : Nat) (h : Stops ["["] after) :
    Parses brackets (lexemesOf (bracketPieces n) ++ after) n after := by
  have hall : Parses brackets (lexemesOf (bracketPieces n) ++ after)
      (List.replicate n ()).length after := .bind (repeated_brackets n h).whileM (.pure _ _)
  rwa [List.length_replicate] at hall

theorem stops_brackets {texts : List String} (n : Nat) (h : Stops texts after)
    (hbracket : "[" ∉ texts) : Stops texts (lexemesOf (bracketPieces n) ++ after) := by
  cases n with
  | zero => exact h
  | succ n =>
    rw [bracketPieces_succ]
    exact stops_cons hbracket _

theorem TypeArguments.stops_behind (as : TypeArguments) (after : List Lexeme) :
    Stops ["<", ".", "[", "extends", "super"]
      (lexemesOf as.piecesBehind ++ .operator '>' :: after) := by
  cases as with
  | nil => exact stops_cons (by decide) _
  | cons first rest => exact stops_cons (by decide) _

theorem parses_basicType (t : Scalar) (ls : List Lexeme) :
    Parses basicType (.word t.name :: ls) t.tree ls := by
  refine .next fun token htoken => ?_
  have htext : token.text = t.name := congrArg Lexeme.text htoken
  rw [htext]
  exact .pure _ _

/-- The links of a reference type as they are parsed. -/
def ReferenceType.typeLinks : ReferenceType → List (String × Tree)
  | .last name arguments => [(name.name, .ofArguments arguments.trees)]
  | .link name arguments inner => (name.name, .ofArguments arguments.trees) :: inner.typeLinks

theorem ReferenceType.referenceOfLinks_typeLinks (t : ReferenceType) :
    referenceOfLinks t.typeLinks = t.tree := by
  cases t with
  | last name arguments => rfl
  | link name arguments inner =>
    have hinner := inner.referenceOfLinks_typeLinks
    rw [typeLinks, referenceOfLinks, hinner, tree]

theorem IsTypeName.stops {w : String} (h : IsTypeName w) {texts : List String}
    (htexts : ∀ s ∈ texts, ¬ IsTypeName s) (ls : List Lexeme) : Stops texts (.word w :: ls) :=
  stops_cons (h.not_mem htexts) ls

theorem Identifier.notSeeBasicType (i : Identifier) (ls : List Lexeme) :
    Parses (seeKind .basicType) (.word i.name :: ls) false (.word i.name :: ls) :=
  .seeKind (by simp [Lexeme.word, i.isIdentifier])

theorem Identifier.seeIdentifier (i : Identifier) (ls : List Lexeme) :
    Parses (seeKind .identifier) (.word i.name :: ls) true (.word i.name :: ls) :=
  .seeKind (by simp [Lexeme.word, i.isIdentifier])

theorem Scalar.notSeeIdentifier (t : Scalar) (ls : List Lexeme) :
    Parses (seeKind .identifier) (.word t.name :: ls) false (.word t.name :: ls) :=
  .seeKind (by simp [Lexeme.word, t.kindOfWord_name])

theorem Scalar.seeBasicType (t : Scalar) (ls : List Lexeme) :
    Parses (seeKind .basicType) (.word t.name :: ls) true (.word t.name :: ls) :=
  .seeKind (by simp [Lexeme.word, t.kindOfWord_name])

mutual

/-- The links of a type after a point are parsed one by one. -/
theorem ReferenceType.repeated : ∀ (t : ReferenceType) {m : Nat} (after : List Lexeme),
    (lexemesOf t.pieces).length ≤ m → Stops ["<", "."] after →
      Repeated (accept ["."]) (typeLink (Grammar.ofDepth m))
        (.separator '.' :: (lexemesOf t.pieces ++ after)) t.typeLinks after
  | .last name arguments, m, after, hm, hafter => by
    rw [ReferenceType.pieces, lexemesOf_word, List.length_cons] at hm
    have hlink := arguments.parses name (m := m) after (by omega) (hafter.mono (by simp))
    rw [ReferenceType.pieces, lexemesOf_word, List.cons_append]
    refine .step (.accept rfl) hlink ?_ (.stop (hafter.notAccept (by simp) _))
    simp only [List.length_cons, List.length_append]
    omega
  | .link name arguments inner, m, after, hm, hafter => by
    simp only [ReferenceType.pieces, lexemesOf_word, lexemesOf_append, lexemesOf_separator,
      List.length_cons, List.length_append, List.cons_append, List.append_assoc] at hm ⊢
    have hlink := arguments.parses name (m := m)
      (.separator '.' :: (lexemesOf inner.pieces ++ after)) (by omega) (stops_cons (by decide) _)
    refine .step (.accept rfl) hlink ?_ (inner.repeated after (by omega) hafter)
    simp only [List.length_cons, List.length_append]
    omega

/-- A name is parsed with the type arguments at it. -/
theorem TypeArguments.parses : ∀ (as : TypeArguments) (name : Identifier) {m : Nat}
    (after : List Lexeme), (lexemesOf as.pieces).length ≤ m → Stops ["<"] after →
      Parses (typeLink (Grammar.ofDepth m)) (.word name.name :: (lexemesOf as.pieces ++ after))
        (name.name, .ofArguments as.trees) after
  | .nil, name, m, after, _, hafter =>
    .bind (name.parses _) (.ifFalse (.see (hafter.seen (by simp) _)) (.pure _ _))
  | .cons first rest, name, m, after, hm, _ => by
    simp only [TypeArguments.pieces, lexemesOf_operator, lexemesOf_append, lexemesOf_nil,
      List.length_cons, List.length_append, List.cons_append, List.append_assoc,
      List.nil_append] at hm ⊢
    refine .bind (name.parses _) (.ifTrue (.see rfl) (.bind (.bind ?_ (.pure _ _)) (.pure _ _)))
    have hfirst := first.parses (m := m) _ (by omega) (rest.stops_behind after)
    exact .pass rfl (.bind hfirst (.bind (rest.repeated after (by omega)).untilM (.pure _ _)))

/-- Type arguments after the first are parsed one by one. -/
theorem TypeArguments.repeated : ∀ (as : TypeArguments) {m : Nat} (after : List Lexeme),
    (lexemesOf as.piecesBehind).length ≤ m →
      Repeated (not <$> accept [">"])
        (do discard <| expect ","; typeArgument (Grammar.ofDepth m))
        (lexemesOf as.piecesBehind ++ .operator '>' :: after) as.trees after
  | .nil, m, after, _ => .stop (Parses.not (.accept rfl))
  | .cons first rest, m, after, hm => by
    simp only [TypeArguments.piecesBehind, lexemesOf_separator, lexemesOf_blank, lexemesOf_append,
      List.length_cons, List.length_append, List.cons_append, List.append_assoc] at hm ⊢
    have hfirst := first.parses (m := m) _ (by omega) (rest.stops_behind after)
    refine .step (Parses.not (.notAccept rfl)) (.pass rfl hfirst) ?_
      (rest.repeated after (by omega))
    simp only [List.length_cons, List.length_append]
    omega

theorem TypeArgument.parses : ∀ (a : TypeArgument) {m : Nat} (after : List Lexeme),
    (lexemesOf a.pieces).length ≤ m → Stops ["<", ".", "[", "extends", "super"] after →
      Parses (typeArgument (Grammar.ofDepth m)) (lexemesOf a.pieces ++ after) a.tree after
  | .wildcard, _, _, _, hafter =>
    .ifTrue (.accept rfl) (.ifFalse (hafter.notSeeAnyOf (by simp)) (.pure _ _))
  | .exact type, m, after, hm, hafter => by
    obtain ⟨w, ps, hpieces, hw⟩ := type.exists_pieces
    have htype := type.parses (m := m) after hm (hafter.mono (by simp))
    have hstops : Stops ["?"] (lexemesOf type.pieces ++ after) := by
      rw [hpieces]
      exact hw.stops (by decide) _
    exact .ifFalse (hstops.notAccept (by simp) _) (.bind htype (.pure _ _))
  | .bounded bound type, m, after, hm, hafter => by
    simp only [TypeArgument.pieces, lexemesOf_operator, lexemesOf_blank, lexemesOf_word,
      List.length_cons, List.cons_append] at hm ⊢
    have htype := type.parses (m := m) after (by omega) (hafter.mono (by simp))
    have hbound : ∀ ls : List Lexeme, ((Lexeme.word bound.word :: ls).head?.any fun l =>
        ["extends", "super"].contains l.text) = true := by
      cases bound <;> exact fun _ => rfl
    refine .ifTrue (.accept rfl) (.ifTrue (.seeAnyOf (hbound _)) (.next fun token htoken => ?_))
    have htext : token.text = bound.word := congrArg Lexeme.text htoken
    rw [htext]
    exact .bind htype (.pure _ _)

theorem ObjectType.parses : ∀ (t : ObjectType) {m : Nat} (after : List Lexeme),
    (lexemesOf t.pieces).length ≤ m → Stops ["<", ".", "["] after →
      Parses (boxedType (Grammar.ofDepth m)) (lexemesOf t.pieces ++ after) t.tree after
  | .reference type brackets, m, after, hm, hafter => by
    obtain ⟨name, ps, hpieces⟩ := type.exists_pieces
    simp only [ObjectType.pieces, lexemesOf_append, List.length_append, List.append_assoc] at hm ⊢
    have htype := type.parses (m := m) (lexemesOf (bracketPieces brackets) ++ after)
      (by omega) (stops_brackets _ (hafter.mono (by simp)) (by decide))
    have hkind : Parses (seeKind .basicType)
        (lexemesOf type.pieces ++ (lexemesOf (bracketPieces brackets) ++ after)) false
        (lexemesOf type.pieces ++ (lexemesOf (bracketPieces brackets) ++ after)) := by
      rw [hpieces]
      exact name.notSeeBasicType _
    exact .ifFalse hkind (.bind htype (.bind (parses_brackets _ (hafter.mono (by simp)))
      (.pure _ _)))
  | .array element extra, m, after, _, hafter => by
    rw [ObjectType.pieces, bracketPieces_succ]
    refine .ifTrue (element.seeBasicType _) (.bind (parses_basicType _ _) ?_)
    refine .pass rfl (.pass rfl (.bind (parses_brackets _ (hafter.mono (by simp))) ?_))
    rw [ObjectType.tree, Nat.add_comm]
    exact .pure _ _

theorem ReferenceType.parses : ∀ (t : ReferenceType) {m : Nat} (after : List Lexeme),
    (lexemesOf t.pieces).length ≤ m → Stops ["<", "."] after →
      Parses (Grammar.ofDepth m .referenceType) (lexemesOf t.pieces ++ after) t.tree after
  | .last name arguments, m, after, hm, hafter => by
    rw [ReferenceType.pieces, lexemesOf_word, List.length_cons] at hm
    obtain ⟨m, rfl⟩ : ∃ k, m = k + 1 := ⟨m - 1, by omega⟩
    have hlink := arguments.parses name (m := m) after (by omega) (hafter.mono (by simp))
    have hstop := hafter.notAccept (s := ".") (by simp) []
    rw [← ReferenceType.referenceOfLinks_typeLinks]
    exact .bind (Repeated.manyWith hlink (.stop hstop)) (.pure _ _)
  | .link name arguments inner, m, after, hm, hafter => by
    rw [← ReferenceType.referenceOfLinks_typeLinks]
    simp only [ReferenceType.pieces, lexemesOf_word, lexemesOf_append, lexemesOf_separator,
      List.length_cons, List.length_append, List.cons_append, List.append_assoc] at hm ⊢
    obtain ⟨m, rfl⟩ : ∃ k, m = k + 1 := ⟨m - 1, by omega⟩
    have hlink := arguments.parses name (m := m)
      (.separator '.' :: (lexemesOf inner.pieces ++ after)) (by omega) (stops_cons (by decide) _)
    exact .bind (Repeated.manyWith hlink (inner.repeated after (by omega) hafter)) (.pure _ _)

end

end TypeAtlas.Java
