import TypeAtlas.Proofs.Java.Programs.Skeleton
import TypeAtlas.Proofs.Java.Programs.TypeParsing

namespace TypeAtlas.Java

open TypeAtlas.Java.Parser

variable {after ls : List Lexeme} {m : Nat} {w : String}

section Names

theorem kindOfWord_ne_atSign (w : String) : Token.kindOfWord w ≠ .atSign := by
  unfold Token.kindOfWord
  split_ifs <;> simp

theorem IsTypeName.kind_ne_modifier (h : IsTypeName w) : Token.kindOfWord w ≠ .modifier := by
  obtain ⟨_, hkind | hkind⟩ := h <;> simp [hkind]

theorem Identifier.stops (i : Identifier) {texts : List String}
    (htexts : ∀ s ∈ texts, ¬ IsTypeName s) (ls : List Lexeme) : Stops texts (.word i.name :: ls) :=
  i.isTypeName.stops htexts ls

/-- The names of a qualified name. -/
def QualifiedName.names (q : QualifiedName) : List String :=
  q.first.name :: q.others.map Identifier.name

theorem QualifiedName.ofString_intercalate (q : QualifiedName) :
    Text.ofString (".".intercalate q.names) = q.text := by
  obtain ⟨first, others⟩ := q
  induction others generalizing first with
  | nil => simp [names, text, pieces, pointPieces, Piece.text]
  | cons i others ih =>
    have hrest := ih i
    simp only [names, text, pieces, List.map_cons] at hrest ⊢
    rw [String.intercalate_cons_cons, Text.ofString, String.toList_append, String.toList_append,
      List.map_append, List.map_append]
    change Text.ofString first.name ++ Text.ofString "." ++ Text.ofString _ = _
    rw [hrest, List.append_assoc]
    rfl

theorem QualifiedName.parses (q : QualifiedName) (after : List Lexeme) (h : Stops ["."] after) :
    Parses qualifiedName (lexemesOf q.pieces ++ after) (".".intercalate q.names) after := by
  obtain ⟨first, others⟩ := q
  have hall : Repeated (accept ["."]) identifier
      (lexemesOf (pointPieces others) ++ after) (others.map Identifier.name) after := by
    induction others with
    | nil => exact .stop (h.notAccept (by simp) _)
    | cons i others ih =>
      change Repeated _ _ (.separator '.' :: .word i.name :: (lexemesOf (pointPieces others) ++
        after)) _ _
      refine .step (.accept rfl) (i.parses _) ?_ ih
      simp only [List.length_cons]
      omega
  exact .bind (Repeated.manyWith (first.parses _) hall) (.pure _ _)

/-- The names of an import as they are parsed: the last says whether a star comes after it. -/
def importNames (isWildcard : Bool) (first : Identifier) : List Identifier → List (String × Bool)
  | [] => [(first.name, isWildcard)]
  | i :: others => (first.name, false) :: importNames isWildcard i others

theorem map_fst_importNames (isWildcard : Bool) (first : Identifier) (others : List Identifier) :
    (importNames isWildcard first others).map (·.1) = QualifiedName.names ⟨first, others⟩ := by
  induction others generalizing first with
  | nil => rfl
  | cons i others ih =>
    rw [importNames, List.map_cons, ih, QualifiedName.names, QualifiedName.names, List.map_cons]

theorem any_snd_importNames (isWildcard : Bool) (first : Identifier) (others : List Identifier) :
    (importNames isWildcard first others).any (·.2) = isWildcard := by
  induction others generalizing first with
  | nil => simp [importNames]
  | cons i others ih => rw [importNames, List.any_cons, ih, Bool.false_or]

theorem looped_importName (isWildcard : Bool) (first : Identifier) (others : List Identifier) :
    Looped (do let (name, more) ← importName; return ([name], more))
      (.word first.name :: (lexemesOf (pointPieces others) ++
        (lexemesOf (starPieces isWildcard) ++ .separator ';' :: after)))
      (importNames isWildcard first others) (.separator ';' :: after) := by
  induction others generalizing first with
  | nil =>
    cases isWildcard with
    | true =>
      exact .last (.bind (.bind (first.parses _) (.ifTrue (.accept rfl)
        (.bind (.accept rfl) (.pure _ _)))) (.pure _ _))
    | false =>
      exact .last (.bind (.bind (first.parses _) (.ifFalse (.notAccept rfl) (.pure _ _)))
        (.pure _ _))
  | cons i others ih =>
    have hstar : Stops ["*"] (.word i.name :: (lexemesOf (pointPieces others) ++
        (lexemesOf (starPieces isWildcard) ++ .separator ';' :: after))) := i.stops (by decide) _
    change Looped _ (.word first.name :: .separator '.' :: .word i.name ::
      (lexemesOf (pointPieces others) ++ (lexemesOf (starPieces isWildcard) ++
        .separator ';' :: after))) _ _
    exact (ih i).cons (.bind (.bind (first.parses _) (.ifTrue (.accept rfl)
      (.bind (hstar.notAccept (by simp) _) (.pure _ _)))) (.pure _ _))
      (by simp only [List.length_cons]; omega)

theorem parses_static (isStatic : Bool) (i : Identifier) (ls : List Lexeme) :
    Parses (accept ["static"]) (lexemesOf (staticPieces isStatic) ++ .word i.name :: ls) isStatic
      (.word i.name :: ls) := by
  cases isStatic with
  | true => exact .accept rfl
  | false =>
    have hstops : Stops ["static"] (.word i.name :: ls) := i.stops (by decide) ls
    exact hstops.notAccept (by simp) _

theorem Import.parses (i : Import) (after : List Lexeme) :
    Parses importClause (lexemesOf i.pieces ++ after) i.tree after := by
  obtain ⟨isStatic, ⟨first, others⟩, isWildcard⟩ := i
  have htree : (Tree.node .importDeclaration
      [(.path, .word (".".intercalate ((importNames isWildcard first others).map (·.1)))),
        (.isStatic, .flag isStatic),
        (.isWildcard, .flag ((importNames isWildcard first others).any (·.2)))]) =
      Import.tree ⟨isStatic, ⟨first, others⟩, isWildcard⟩ := by
    rw [map_fst_importNames, any_snd_importNames, QualifiedName.ofString_intercalate, Import.tree]
  have hclause : Parses importClause (.word "import" :: (lexemesOf (staticPieces isStatic) ++
      .word first.name :: (lexemesOf (pointPieces others) ++ (lexemesOf (starPieces isWildcard) ++
        .separator ';' :: after)))) _ after :=
    .pass rfl (.bind (parses_static isStatic first _)
      (.bind (looped_importName isWildcard first others).parses (.pass rfl (.pure _ _))))
  rw [htree] at hclause
  simpa [Import.pieces, QualifiedName.pieces] using hclause

end Names

section Variables

theorem ValueType.parses (t : ValueType) (after : List Lexeme)
    (hm : (lexemesOf t.pieces).length ≤ m) (hafter : Stops ["<", ".", "["] after) :
    Parses (type (Grammar.ofDepth m)) (lexemesOf t.pieces ++ after) t.tree after := by
  have hstops : Stops ["["] after := hafter.mono (by simp)
  cases t with
  | scalar t =>
    refine .bind (t.seeBasicType _) (.bind (t.notSeeIdentifier _) (.condTrue ?_))
    exact .bind (parses_basicType t _) (.bind (parses_brackets 0 hstops) (.pure _ _))
  | object t =>
    cases t with
    | array element extra =>
      refine .bind (element.seeBasicType _) (.bind (element.notSeeIdentifier _) (.condTrue ?_))
      exact .bind (parses_basicType element _)
        (.bind (parses_brackets (extra + 1) hstops) (.pure _ _))
    | reference t brackets =>
      obtain ⟨name, ps, hpieces⟩ := t.exists_pieces
      simp only [ValueType.pieces, ObjectType.pieces, lexemesOf_append, List.length_append,
        List.append_assoc] at hm ⊢
      have htype := t.parses (m := m) (lexemesOf (bracketPieces brackets) ++ after)
        (by omega) (stops_brackets _ (hafter.mono (by simp)) (by decide))
      rw [hpieces] at htype ⊢
      exact .bind (name.notSeeBasicType _) (.bind (name.seeIdentifier _) (.condFalse
        (.condTrue (.bind htype (.bind (parses_brackets brackets hstops) (.pure _ _))))))

theorem ObjectType.addBrackets_zero (t : ObjectType) : t.tree.addBrackets 0 = t.tree := by
  cases t with
  | reference t brackets => cases t <;> simp [tree, ReferenceType.tree, Tree.addBrackets]
  | array element extra => simp [tree, Scalar.tree, Tree.addBrackets]

theorem ValueType.addBrackets_zero (t : ValueType) : t.tree.addBrackets 0 = t.tree := by
  cases t with
  | scalar t => rfl
  | object t => exact t.addBrackets_zero

theorem ValueType.exists_pieces (t : ValueType) :
    ∃ w ps, t.pieces = .word w :: ps ∧ IsTypeName w := by
  cases t with
  | scalar t => exact ⟨t.name, [], rfl, t.isTypeName⟩
  | object t => exact t.exists_pieces

theorem notSeeAnnotationUse (w : String) (ls : List Lexeme) :
    Parses (seeAnnotationUse 0) (.word w :: ls) false (.word w :: ls) := by
  refine .notSeeAnnotationUse fun l hl => ?_
  obtain rfl := Option.some.inj hl
  exact kindOfWord_ne_atSign w

theorem parses_variableModifiers (g : Grammar) (hw : w ≠ "final") (ls : List Lexeme) :
    Parses (variableModifiers g) (.word w :: ls) [] (.word w :: ls) := by
  have hfinal : Stops ["final"] (.word w :: ls) := stops_cons (by simpa [Lexeme.word] using hw) ls
  exact .bind (.untilNone (.ifFalse (hfinal.notAccept (by simp) _)
    (.ifFalse (notSeeAnnotationUse w ls) (.pure _ _)))) (.pure _ _)

theorem parses_modifiers (g : Grammar) (hw : Token.kindOfWord w ≠ .modifier) (ls : List Lexeme) :
    Parses (modifiers g) (.word w :: ls) [] (.word w :: ls) := by
  have hkind : Parses (seeKind .modifier) (.word w :: ls) false (.word w :: ls) :=
    .seeKind (by simpa [Lexeme.word] using hw)
  exact .bind (.untilNone (.ifFalse hkind (.ifFalse (notSeeAnnotationUse w ls) (.pure _ _))))
    (.pure _ _)

theorem Variable.parses_parameter (v : Variable) {more : Bool} {between : List Lexeme}
    (hm : (lexemesOf v.pieces).length ≤ m)
    (hmore : Parses (accept [","]) between more after) (hstops : Stops ["["] between) :
    Parses (formalParameter (Grammar.ofDepth m)) (lexemesOf v.pieces ++ between)
      (v.parameter, more) after := by
  obtain ⟨w, ps, hpieces, hw⟩ := v.type.exists_pieces
  have hname : Stops ["<", ".", "[", "..."] (.word v.name.name :: between) :=
    v.name.stops (by decide) _
  simp only [Variable.pieces, lexemesOf_append, lexemesOf_blank, lexemesOf_word, lexemesOf_nil,
    List.length_append, List.append_assoc, List.cons_append, List.nil_append] at hm ⊢
  have htype := v.type.parses (m := m) _ (by omega) (hname.mono (by simp))
  rw [hpieces] at htype ⊢
  refine .bind (parses_variableModifiers _ ?_ _) (.bind htype
    (.bind (hname.notAccept (by simp) _) (.bind (v.name.parses _)
      (.bind (parses_brackets 0 hstops) ?_))))
  · rintro rfl
    revert hw
    decide
  · rw [v.type.addBrackets_zero]
    exact .bind hmore (.pure _ _)

theorem commaPieces_cons {α : Type} (f : α → List Piece) (a b : α) (as : List α) :
    commaPieces f (a :: b :: as) =
      f a ++ .separator ',' :: .blank ' ' :: commaPieces f (b :: as) := by
  simp [commaPieces, commaTail]

theorem looped_parameters (v : Variable) (vs : List Variable)
    (hm : (lexemesOf (commaPieces Variable.pieces (v :: vs))).length ≤ m) :
    Looped (do let (p, more) ← formalParameter (Grammar.ofDepth m); return ([p], more))
      (lexemesOf (commaPieces Variable.pieces (v :: vs)) ++ .separator ')' :: after)
      ((v :: vs).map Variable.parameter) (.separator ')' :: after) := by
  induction vs generalizing v with
  | nil =>
    simp only [commaPieces, commaTail, List.flatMap_nil, List.append_nil] at hm ⊢
    have hmore : Parses (accept [","]) (.separator ')' :: after) false (.separator ')' :: after) :=
      .notAccept rfl
    exact .last (.bind (v.parses_parameter hm hmore (stops_cons (by decide) _)) (.pure _ _))
  | cons u us ih =>
    rw [commaPieces_cons] at hm ⊢
    simp only [lexemesOf_append, lexemesOf_separator, lexemesOf_blank, List.length_append,
      List.length_cons, List.append_assoc, List.cons_append] at hm ⊢
    have hmore : Parses (accept [","]) (.separator ',' ::
        (lexemesOf (commaPieces Variable.pieces (u :: us)) ++ .separator ')' :: after)) true
        (lexemesOf (commaPieces Variable.pieces (u :: us)) ++ .separator ')' :: after) :=
      .accept rfl
    have hv := v.parses_parameter (m := m) (by omega) hmore (stops_cons (by decide) _)
    refine (ih u (by omega)).cons (.bind hv (.pure _ _)) ?_
    simp only [List.length_cons, List.length_append]
    omega

theorem parses_parameters (vs : List Variable)
    (hm : (lexemesOf (commaPieces Variable.pieces vs)).length ≤ m) (after : List Lexeme) :
    Parses (formalParameters (Grammar.ofDepth m))
      (.separator '(' :: (lexemesOf (commaPieces Variable.pieces vs) ++ .separator ')' :: after))
      (vs.map Variable.parameter) after := by
  cases vs with
  | nil => exact .pass rfl (.ifTrue (.accept rfl) (.pure _ _))
  | cons v vs =>
    have hstops : Stops [")"]
        (lexemesOf (commaPieces Variable.pieces (v :: vs)) ++ .separator ')' :: after) := by
      obtain ⟨w, ps, hpieces, hw⟩ := v.type.exists_pieces
      simp only [commaPieces, Variable.pieces, hpieces, List.cons_append, lexemesOf_word]
      exact hw.stops (by decide) _
    exact .pass rfl (.ifFalse (hstops.notAccept (by simp) _)
      (.bind (looped_parameters v vs hm).parses (.pass rfl (.pure _ _))))

end Variables

section Members

/-- What stands after the name of a method with an empty body. -/
theorem parses_methodRest (name : String) {returned : Parser Tree} {t : Tree} (vs : List Variable)
    (hm : (lexemesOf (commaPieces Variable.pieces vs)).length + 1 ≤ m)
    (hreturned : ∀ ls, Stops ["["] ls → Parses returned ls t ls) (after : List Lexeme) :
    Parses (methodRest (Grammar.ofDepth m) [] name returned)
      (.separator '(' :: (lexemesOf (commaPieces Variable.pieces vs) ++ .separator ')' ::
        .separator '{' :: .separator '}' :: after))
      (.node .method
        [(.annotations, .list []), (.name, .word name), (.returnType, t),
          (.parameters, .list (vs.map Variable.parameter)), (.body, .list [])]) after := by
  have hblock : Parses (Grammar.ofDepth m .block) (.separator '{' :: .separator '}' :: after)
      (.list []) after := by
    obtain ⟨m, rfl⟩ : ∃ k, m = k + 1 := ⟨m - 1, by omega⟩
    have hnone : Repeated (not <$> see [closeBrace]) (blockStatement (Grammar.ofDepth m))
        (.separator '}' :: after) [] (.separator '}' :: after) := .stop (Parses.not (.see rfl))
    exact .pass rfl (.bind hnone.untilM (.pass rfl (.pure _ _)))
  exact .bind (parses_parameters vs (by omega) _) (.bind (hreturned _ (stops_cons (by decide) _))
    (.ifFalse (.notAccept rfl) (.ifTrue (.see rfl) (.bind hblock (.pure _ _)))))

/-- What starts with a word that is no modifier is a member without modifiers. -/
theorem parses_classMember {g : Grammar} {t : Tree} (hkind : Token.kindOfWord w ≠ .modifier)
    (hw : w ∉ [";", "static", openBrace]) (h : Parses (member g []) (.word w :: ls) t after) :
    Parses (classMember g) (.word w :: ls) t after := by
  have hstops : Stops [";", "static", openBrace] (.word w :: ls) := stops_cons hw ls
  exact .ifFalse (hstops.notAccept (by simp) _) (.ifFalse (.see (hstops.seen (by simp) _))
    (.ifFalse (.see (hstops.seen (by simp) _)) (.bind (parses_modifiers g hkind ls) h)))

theorem TypeArguments.stops (as : TypeArguments) {texts : List String} (hless : "<" ∉ texts)
    (h : Stops texts after) : Stops texts (lexemesOf as.pieces ++ after) := by
  cases as with
  | nil => exact h
  | cons first rest => exact stops_cons hless _

/-- What comes after the first word of a type is no parenthesis. -/
theorem ValueType.stops_tail (t : ValueType) (h : Stops ["("] after) :
    Stops ["("] (lexemesOf t.pieces ++ after).tail := by
  cases t with
  | scalar t => exact h
  | object t =>
    cases t with
    | array element extra => exact stops_brackets (extra + 1) h (by decide)
    | reference t brackets =>
      have hbrackets := stops_brackets brackets h (by decide)
      simp only [ValueType.pieces, ObjectType.pieces, lexemesOf_append, List.append_assoc]
      cases t with
      | last name arguments => exact arguments.stops (by decide) hbrackets
      | link name arguments inner =>
        simp only [ReferenceType.pieces, lexemesOf_word, lexemesOf_append, List.cons_append,
          List.append_assoc]
        exact arguments.stops (by decide) (stops_cons (by decide) _)

/-- A member that starts with a type is told apart by what comes after its name. -/
theorem ValueType.parses_member (t : ValueType) (name : Identifier) {isMethod : Bool} {tree : Tree}
    (hm : (lexemesOf t.pieces).length ≤ m) (hsee : seen ["("] ls = isMethod)
    (h : Parses (if isMethod = true then typedMethod (Grammar.ofDepth m) [] t.tree name.name
      else fieldRest (Grammar.ofDepth m) [] t.tree name.name) ls tree after) :
    Parses (classMember (Grammar.ofDepth m)) (lexemesOf t.pieces ++ .word name.name :: ls) tree
      after := by
  obtain ⟨w, ps, hpieces, hw⟩ := t.exists_pieces
  have hname : Stops ["("] (.word name.name :: ls) := name.stops (by decide) ls
  have htail := t.stops_tail hname
  have htype := t.parses (m := m) _ hm (name.stops (by decide) ls)
  rw [hpieces, lexemesOf_word, List.cons_append] at htail htype ⊢
  have hstops : Stops ["void", "<", "class", "enum", "interface", "@"]
      (.word w :: (lexemesOf ps ++ .word name.name :: ls)) := hw.stops (by decide) _
  have hconstructor : seen [.identifier, .text "("]
      (.word w :: (lexemesOf ps ++ .word name.name :: ls)) = false := by
    rw [seen, htail.seen (s := "(") (by simp) [], Bool.and_false]
  refine parses_classMember hw.kind_ne_modifier (hw.not_mem (by decide)) ?_
  exact .ifFalse (hstops.notAccept (by simp) _) (.ifFalse (.see (hstops.seen (by simp) _))
    (.ifFalse (hstops.notSeeAnyOf (by simp)) (.ifFalse (.see hconstructor)
      (.bind htype (.bind (name.parses _) (.bind (.see hsee) h))))))

theorem Variable.parses_field (v : Variable) (hm : (lexemesOf v.pieces).length ≤ m) :
    Parses (classMember (Grammar.ofDepth m))
      (lexemesOf v.pieces ++ .separator ';' :: after) v.field after := by
  simp only [Variable.pieces, lexemesOf_append, lexemesOf_blank, lexemesOf_word, lexemesOf_nil,
    List.length_append, List.append_assoc, List.cons_append, List.nil_append] at hm ⊢
  refine v.type.parses_member v.name (by omega) rfl (.condFalse ?_)
  have hnone : Repeated (accept [","]) (variableDeclarator (Grammar.ofDepth m))
      (.separator ';' :: after) [] (.separator ';' :: after) := .stop (.notAccept rfl)
  exact .bind (parses_brackets 0 (stops_cons (by decide) _))
    (.bind (.ifFalse (.notAccept rfl) (.pure _ _)) (.bind hnone.whileM (.pass rfl (.pure _ _))))

theorem Method.parses (d : Method) (hm : (lexemesOf d.pieces).length ≤ m) :
    Parses (classMember (Grammar.ofDepth m)) (lexemesOf d.pieces ++ after) d.tree after := by
  obtain ⟨returned, name, parameters⟩ := d
  simp only [Method.pieces, lexemesOf_append, lexemesOf_blank, lexemesOf_word, lexemesOf_separator,
    lexemesOf_nil, List.length_append, List.length_cons, List.append_assoc, List.cons_append,
    List.nil_append] at hm ⊢
  cases returned with
  | none =>
    refine parses_classMember (w := "void") (by decide) (by decide) (.ifTrue (.accept rfl) ?_)
    exact .bind (name.parses _)
      (parses_methodRest name.name parameters (by omega) (fun ls _ => .pure _ ls) after)
  | some t =>
    refine t.parses_member name ?_ rfl (.condTrue ?_)
    · rw [Option.elim_some] at hm
      omega
    · refine parses_methodRest name.name parameters (by omega) (fun ls hls => ?_) after
      have hreturned : Parses (do return t.tree.addBrackets (← brackets)) ls
        (t.tree.addBrackets 0) ls := .bind (parses_brackets 0 hls) (.pure _ _)
      rwa [t.addBrackets_zero] at hreturned

theorem Member.parses (d : Member) (after : List Lexeme) (hm : (lexemesOf d.pieces).length ≤ m) :
    Parses (classMember (Grammar.ofDepth m)) (lexemesOf d.pieces ++ after) d.tree after := by
  cases d with
  | field v =>
    simp only [Member.pieces, lexemesOf_append, lexemesOf_separator, lexemesOf_blank, lexemesOf_nil,
      List.length_append, List.append_assoc, List.cons_append, List.nil_append] at hm ⊢
    exact v.parses_field (by omega)
  | method d => exact d.parses hm

theorem Member.exists_pieces (d : Member) :
    ∃ w ps, d.pieces = .word w :: ps ∧ w ∉ [closeBrace] := by
  cases d with
  | field v =>
    obtain ⟨w, ps, hpieces, hw⟩ := v.type.exists_pieces
    exact ⟨w, _, by rw [pieces, Variable.pieces, hpieces]; rfl, hw.not_mem (by decide)⟩
  | method d =>
    obtain ⟨returned, name, parameters⟩ := d
    cases returned with
    | none => exact ⟨"void", _, rfl, by decide⟩
    | some t =>
      obtain ⟨w, ps, hpieces, hw⟩ := t.exists_pieces
      exact ⟨w, _, by rw [pieces, Method.pieces, Option.elim_some, hpieces]; rfl,
        hw.not_mem (by decide)⟩

end Members

section Classes

theorem repeated_members (ds : List Member)
    (hm : (lexemesOf (ds.flatMap Member.pieces)).length ≤ m) :
    Repeated (not <$> see [closeBrace]) (classMember (Grammar.ofDepth m))
      (lexemesOf (ds.flatMap Member.pieces) ++ .separator '}' :: after) (ds.map Member.tree)
      (.separator '}' :: after) := by
  induction ds with
  | nil => exact .stop (Parses.not (.see rfl))
  | cons d ds ih =>
    simp only [List.flatMap_cons, lexemesOf_append, List.length_append, List.append_assoc] at hm ⊢
    obtain ⟨w, ps, hpieces, hw⟩ := d.exists_pieces
    have hmember := d.parses (m := m)
      (lexemesOf (ds.flatMap Member.pieces) ++ .separator '}' :: after) (by omega)
    have hsee : seen [closeBrace] (lexemesOf d.pieces ++
        (lexemesOf (ds.flatMap Member.pieces) ++ .separator '}' :: after)) = false := by
      rw [hpieces]
      exact (stops_cons hw _).seen (by simp) _
    refine .step (Parses.not (.see hsee)) hmember ?_ (ih (by omega))
    simp only [hpieces, lexemesOf_word, List.cons_append, List.length_cons, List.length_append]
    omega

theorem Program.parses_body (p : Program) (hm : (lexemesOf p.bodyPieces).length ≤ m)
    (after : List Lexeme) :
    Parses (Grammar.ofDepth (m + 1) .classBody) (lexemesOf p.bodyPieces ++ after)
      (.list (p.members.map Member.tree)) after := by
  simp only [bodyPieces, lexemesOf_separator, lexemesOf_blank, lexemesOf_append, lexemesOf_nil,
    List.length_append, List.length_cons, List.cons_append, List.append_assoc,
    List.nil_append] at hm ⊢
  exact .pass rfl (.bind (repeated_members p.members (by omega)).untilM (.pass rfl (.pure _ _)))

theorem ReferenceType.parses_boxed (t : ReferenceType) (hm : (lexemesOf t.pieces).length ≤ m)
    (hafter : Stops ["<", ".", "["] after) :
    Parses (boxedType (Grammar.ofDepth m)) (lexemesOf t.pieces ++ after) t.tree after := by
  have h := (ObjectType.reference t 0).parses (m := m) after
  rw [ObjectType.pieces, ObjectType.tree, t.addBrackets_zero] at h
  simpa using h (by simpa using hm) hafter

theorem ReferenceType.parses_type (t : ReferenceType) (hm : (lexemesOf t.pieces).length ≤ m)
    (hafter : Stops ["<", ".", "["] after) :
    Parses (type (Grammar.ofDepth m)) (lexemesOf t.pieces ++ after) t.tree after := by
  have h := (ValueType.object (.reference t 0)).parses (m := m) after
  rw [ValueType.pieces, ValueType.tree, ObjectType.pieces, ObjectType.tree,
    t.addBrackets_zero] at h
  simpa using h (by simpa using hm) hafter

theorem parses_typeList (t : ReferenceType) (ts : List ReferenceType) (after : List Lexeme)
    (hm : (lexemesOf (commaPieces ReferenceType.pieces (t :: ts))).length ≤ m)
    (hafter : Stops ["<", ".", "[", ","] after) :
    Parses (typeList (Grammar.ofDepth m))
      (lexemesOf (commaPieces ReferenceType.pieces (t :: ts)) ++ after)
      ((t :: ts).map ReferenceType.tree) after := by
  have htail (ts : List ReferenceType) :
      Stops ["<", ".", "["] (lexemesOf (commaTail ReferenceType.pieces ts) ++ after) := by
    cases ts with
    | nil => exact hafter.mono (by simp)
    | cons t ts => exact stops_cons (by decide) _
  have hmore (ts : List ReferenceType)
      (hm : (lexemesOf (commaTail ReferenceType.pieces ts)).length ≤ m) :
      Repeated (accept [","]) (boxedType (Grammar.ofDepth m))
        (lexemesOf (commaTail ReferenceType.pieces ts) ++ after) (ts.map ReferenceType.tree)
        after := by
    induction ts with
    | nil => exact .stop (hafter.notAccept (by simp) _)
    | cons t ts ih =>
      have hcons : commaTail ReferenceType.pieces (t :: ts) =
          .separator ',' :: .blank ' ' :: (t.pieces ++ commaTail ReferenceType.pieces ts) := rfl
      simp only [hcons, lexemesOf_append, lexemesOf_separator, lexemesOf_blank,
        List.length_append, List.length_cons, List.append_assoc, List.cons_append] at hm ⊢
      refine .step (.accept rfl) (t.parses_boxed (by omega) (htail ts)) ?_ (ih (by omega))
      simp only [List.length_cons, List.length_append]
      omega
  simp only [commaPieces, lexemesOf_append, List.length_append, List.append_assoc] at hm ⊢
  exact Repeated.manyWith (t.parses_boxed (by omega) (htail ts)) (hmore ts (by omega))

namespace Program

variable (p : Program)

theorem stops_body : Stops ["<", ".", "[", ",", "extends", "implements"]
    (lexemesOf p.bodyPieces ++ after) :=
  stops_cons (by decide) _

theorem stops_interfaces (after : List Lexeme) : Stops ["<", ".", "[", "extends"]
    (lexemesOf (p.interfacePieces ++ .blank ' ' :: p.bodyPieces) ++ after) := by
  unfold interfacePieces
  split <;> exact stops_cons (by decide) _

theorem parses_base {α : Type} {k : Tree → Parser α} {a : α} {between : List Lexeme}
    (hm : (lexemesOf p.basePieces).length ≤ m) (hstops : Stops ["<", ".", "[", "extends"] between)
    (hk : Parses (k (p.base.elim .absent ReferenceType.tree)) between a after) :
    Parses (accept ["extends"] >>= fun x =>
        if x = true then type (Grammar.ofDepth m) >>= k else pure .absent >>= k)
      (lexemesOf p.basePieces ++ between) a after := by
  unfold basePieces at hm ⊢
  cases hbase : p.base with
  | none =>
    rw [hbase] at hk
    exact .ifFalse (hstops.notAccept (by simp) _) hk
  | some t =>
    rw [hbase] at hk hm
    simp only [Option.elim_some, lexemesOf_blank, lexemesOf_word, List.length_cons] at hm
    exact .ifTrue (.accept rfl) (.bind (t.parses_type (by omega) (hstops.mono (by simp))) hk)

theorem parses_interfaces {α : Type} {k : List Tree → Parser α} {a : α} {between : List Lexeme}
    (hm : (lexemesOf p.interfacePieces).length ≤ m)
    (hstops : Stops ["<", ".", "[", ",", "implements"] between)
    (hk : Parses (k (p.interfaces.map ReferenceType.tree)) between a after) :
    Parses (accept ["implements"] >>= fun x =>
        if x = true then typeList (Grammar.ofDepth m) >>= k else pure [] >>= k)
      (lexemesOf p.interfacePieces ++ between) a after := by
  unfold interfacePieces at hm ⊢
  cases hinterfaces : p.interfaces with
  | nil =>
    rw [hinterfaces] at hk
    exact .ifFalse (hstops.notAccept (by simp) _) hk
  | cons t ts =>
    rw [hinterfaces] at hk hm
    have htypes := parses_typeList t ts (m := m) between
    simp only [List.isEmpty_cons, Bool.false_eq_true, if_false, lexemesOf_blank, lexemesOf_word,
      List.length_cons] at hm ⊢
    exact .ifTrue (.accept rfl) (.bind (htypes (by omega) (hstops.mono (by simp))) hk)

theorem parses_typeDeclaration (hm : (lexemesOf p.classPieces).length ≤ m) (after : List Lexeme) :
    Parses (Grammar.ofDepth (m + 2) .typeDeclaration) (lexemesOf p.classPieces ++ after)
      p.classTree after := by
  simp only [classPieces, lexemesOf_word, lexemesOf_blank, lexemesOf_append, List.length_cons,
    List.length_append, List.cons_append, List.append_assoc] at hm ⊢
  have hstops := p.stops_interfaces after
  have hless : Stops ["<"] (lexemesOf p.basePieces ++ (lexemesOf p.interfacePieces ++
      (lexemesOf p.bodyPieces ++ after))) := by
    unfold basePieces
    cases p.base with
    | none => simpa using hstops.mono (by simp)
    | some t => exact stops_cons (by decide) _
  have hclass : Parses (classDeclaration (Grammar.ofDepth (m + 1)) [])
      (.word "class" :: .word p.name.name :: (lexemesOf p.basePieces ++
        (lexemesOf p.interfacePieces ++ (lexemesOf p.bodyPieces ++ after)))) p.classTree after := by
    refine .pass rfl (.bind (p.name.parses _) (.ifFalse (.see (hless.seen (by simp) _)) ?_))
    refine p.parses_base (by omega) (by simpa using hstops) ?_
    refine p.parses_interfaces (by omega) (p.stops_body.mono (by simp)) ?_
    exact .bind (p.parses_body (by omega) after) (.pure _ _)
  refine .bind (parses_modifiers _ (by decide) _) (.ifTrue (.seeAnyOf rfl) (.ifTrue (.see rfl) ?_))
  exact hclass

theorem parses_unitMember {g : Grammar} {t : Tree} (hls : Stops [";"] ls)
    (h : Parses (g .typeDeclaration) ls t after) : Parses (unitMember g) ls t after := by
  have hmember : Parses (accept [";"] >>= fun x => if x = true then pure (.row [])
      else g .typeDeclaration) ls t after := .ifFalse (hls.notAccept (by simp) _) h
  intro c hc
  obtain ⟨c', hok, hc'⟩ := hmember c hc
  refine ⟨c', ?_, hc'⟩
  simp only [unitMember, hok]

/-- Without a package clause the parse goes back to the mark that it has set. -/
theorem parses_packageClause (g : Grammar) (hw : w ∉ ["package"]) (ls : List Lexeme) :
    Parses (packageClause g) (lexemesOf p.packagePieces ++ .word w :: ls) p.packageTree
      (.word w :: ls) := by
  have hpush (ls : List Lexeme) : Parses pushMark ls () ls := fun c hc => ⟨_, rfl, hc⟩
  have hkeep (ls : List Lexeme) : Parses keep ls () ls := by
    rintro ⟨rest, _ | ⟨mark, _ | ⟨below, marks⟩⟩⟩ hc <;> exact ⟨_, rfl, hc⟩
  unfold packagePieces packageTree
  cases p.package with
  | none =>
    -- `Parses` says nothing about marks, but here the parser goes back to the one that it has set.
    intro c hc
    have hc : c.lexemes = .word w :: ls := hc
    have hsign : seeAnnotationUse 0 { c with marks := c.rest :: c.marks } =
        .ok false { c with marks := c.rest :: c.marks } := by
      refine seeAnnotationUse_eq fun l hl => ?_
      obtain rfl : Lexeme.word w = l := Option.some.inj ((congrArg List.head? hc).symm.trans hl)
      exact kindOfWord_ne_atSign w
    have haccept : accept ["package"] { c with marks := c.rest :: c.marks } =
        .ok false { c with marks := c.rest :: c.marks } := by
      have hseen : seen ["package"] c.lexemes = false := by
        rw [hc]
        exact (stops_cons hw ls).seen (by simp) _
      exact accept_eq_of_not_seen hseen
    have hback : (accept ["package"] >>= fun x =>
        if x = true then (do
          keep
          let name ← qualifiedName
          discard <| expect ";"
          return .node .packageDeclaration [(.annotations, .list []), (.name, .word name)])
        else (do
          rewind
          return .absent) : Parser Tree) { c with marks := c.rest :: c.marks } = .ok .absent c := by
      rw [bind_of_ok haccept]
      rfl
    refine ⟨c, ?_, hc⟩
    have hpushed : pushMark c = .ok () { c with marks := c.rest :: c.marks } := rfl
    rw [packageClause, bind_of_ok hpushed, bind_of_ok hsign]
    exact hback
  | some q =>
    have hname := q.parses (.separator ';' :: .word w :: ls) (stops_cons (by decide) _)
    have hclause : Parses (packageClause g) (.word "package" :: (lexemesOf q.pieces ++
        .separator ';' :: .word w :: ls)) _ (.word w :: ls) :=
      .bind (hpush _) (.ifFalse (notSeeAnnotationUse _ _) (.bind (.pure [] _)
        (.ifTrue (.accept rfl) (.bind (hkeep _) (.bind hname (.pass rfl (.pure _ _)))))))
    rw [q.ofString_intercalate] at hclause
    simpa using hclause

/-- A program is parsed to its tree, whatever stands between its lexemes. -/
theorem parseTokens_eq {tokens : List Token} (h : tokens.map Token.lexeme = lexemesOf p.pieces) :
    parseTokens tokens = .ok p.tree := by
  -- The class and its body take one level each, and a type no more levels than it has lexemes.
  obtain ⟨m, hm, hdepth⟩ : ∃ m, (lexemesOf p.classPieces).length ≤ m ∧
      8 * (tokens.length + 1) = m + 2 := by
    refine ⟨8 * tokens.length + 6, ?_, by omega⟩
    have hlength := congrArg List.length h
    simp only [pieces, List.length_map, lexemesOf_append, List.length_append] at hlength
    omega
  have hclass := p.parses_typeDeclaration hm []
  rw [List.append_nil] at hclass
  have htypes : Repeated (not <$> atEnd) (unitMember (Grammar.ofDepth (m + 2)))
      (lexemesOf p.classPieces) [p.classTree] [] :=
    .step (Parses.not (.atEnd rfl)) (parses_unitMember (stops_cons (by decide) _) hclass)
      (by simp [classPieces]) (.stop (Parses.not (.atEnd rfl)))
  have himports (is : List Import) : Repeated (see ["import"]) importClause
      (lexemesOf (is.flatMap Import.pieces) ++ lexemesOf p.classPieces) (is.map Import.tree)
      (lexemesOf p.classPieces) := by
    induction is with
    | nil => exact .stop (.see rfl)
    | cons i is ih =>
      rw [List.flatMap_cons, lexemesOf_append, List.append_assoc]
      refine .step (.see rfl) (i.parses _) ?_ ih
      simp only [Import.pieces, lexemesOf_word, List.cons_append, List.length_cons,
        List.length_append]
      omega
  have hpackage : ∃ w ls, lexemesOf (p.imports.flatMap Import.pieces) ++ lexemesOf p.classPieces =
      .word w :: ls ∧ w ∉ ["package"] := by
    cases p.imports with
    | nil => exact ⟨"class", _, rfl, by decide⟩
    | cons i is => exact ⟨"import", _, rfl, by decide⟩
  obtain ⟨w, ls, hrest, hw⟩ := hpackage
  have hclause := p.parses_packageClause (Grammar.ofDepth (m + 2)) hw ls
  rw [← hrest] at hclause
  have hunit : Parses (compilationUnit (Grammar.ofDepth (m + 2))) (lexemesOf p.pieces) p.tree
      [] := by
    rw [pieces, lexemesOf_append, lexemesOf_append]
    exact .bind hclause (.bind (himports p.imports).whileM (.bind htypes.untilM (.pure _ _)))
  obtain ⟨c, hc, _⟩ := hunit { rest := tokens } h
  rw [parseTokens, hdepth, hc]

end Program

end Classes

end TypeAtlas.Java
