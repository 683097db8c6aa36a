import TypeAtlas.Java.Parser.Declarations
import TypeAtlas.Proofs.Java.Parser.Statements

namespace TypeAtlas.Java.Parser

open TypeAtlas.Java.Tree

variable {tokens : List Token} {g : Grammar} {n : Nat} {notes : List Tree} {t : Tree}

theorem reads_seeDeclaration : Reads tokens n seeDeclaration fun _ => True :=
  reads_seeAnyOf _

/-- A type that may be left out. -/
def IsTypeIfAny (N : TokenKind → Text → Prop) (t : Tree) : Prop :=
  t = .absent ∨ IsType N t

theorem IsTypeIfAny.isReadable {N : TokenKind → Text → Prop} (h : IsTypeIfAny N t) : IsReadable N t := by
  obtain rfl | h := h
  · exact isReadable_absent
  · exact h.isReadable

theorem isReadable_types {N : TokenKind → Text → Prop} {ts : List Tree} (h : ∀ t ∈ ts, IsType N t) :
    IsReadable N (.list ts) :=
  isReadable_list_iff.mpr fun t ht => (h t ht).isReadable

theorem takes_classDeclaration (h : g.ServesBelow tokens n)
    (hnotes : ∀ note ∈ notes, IsReadable (IsName tokens) note) :
    Takes tokens n (classDeclaration g notes) (IsReadable (IsName tokens)) := by
  refine .pass fun m hm => ?_
  have h := h m hm
  refine takes_identifier.reads.bind fun name _ => ?_
  refine .optionally (reads_see _) (takes_typeParameters h.below).reads ?_
  refine .iteBind (P := IsTypeIfAny (IsName tokens)) (reads_accept _)
    ((takes_type h).reads.imp fun _ => .inr) (.pure (.inl rfl)) fun base hbase => ?_
  refine .iteBind (reads_accept _) (takes_typeList h).reads (.pure (by simp)) fun types htypes => ?_
  refine (h.readable .classBody).reads.bind fun body hbody => .pure ?_
  rw [isReadable_node_iff]
  refine ⟨⟨hbase.imp_right .inl, .inr ⟨types, rfl, htypes⟩⟩, ?_⟩
  simpa [-isReadable_list_iff, isReadable_types htypes, hbase.isReadable, hbody] using
    isReadable_list_iff.mpr hnotes

theorem takes_enumDeclaration (h : g.ServesBelow tokens n)
    (hnotes : ∀ note ∈ notes, IsReadable (IsName tokens) note) :
    Takes tokens n (enumDeclaration g notes) (IsReadable (IsName tokens)) := by
  refine .pass fun m hm => ?_
  have h := h m hm
  refine takes_identifier.reads.bind fun name _ => ?_
  refine .iteBind (reads_accept _) (takes_typeList h).reads (.pure (by simp)) fun types htypes => ?_
  refine (h.readable .enumBody).reads.bind fun body hbody => .pure ?_
  rw [isReadable_node_iff]
  refine ⟨⟨.inl rfl, .inr ⟨types, rfl, htypes⟩⟩, ?_⟩
  simpa [-isReadable_list_iff, isReadable_types htypes, hbody] using isReadable_list_iff.mpr hnotes

theorem takes_interfaceDeclaration (h : g.ServesBelow tokens n)
    (hnotes : ∀ note ∈ notes, IsReadable (IsName tokens) note) :
    Takes tokens n (interfaceDeclaration g notes) (IsReadable (IsName tokens)) := by
  refine .pass fun m hm => ?_
  have h := h m hm
  refine takes_identifier.reads.bind fun name _ => ?_
  refine .optionally (reads_see _) (takes_typeParameters h.below).reads ?_
  refine .iteBind (reads_accept _) (takes_typeList h).reads (.pure (by simp)) fun types htypes => ?_
  refine (h.readable .interfaceBody).reads.bind fun body hbody => .pure ?_
  rw [isReadable_node_iff]
  refine ⟨⟨.inr (.inr ⟨types, rfl, htypes⟩), .inl rfl⟩, ?_⟩
  simpa [-isReadable_list_iff, isReadable_types htypes, hbody] using isReadable_list_iff.mpr hnotes

theorem takes_annotationDeclaration (h : g.ServesBelow tokens n)
    (hnotes : ∀ note ∈ notes, IsReadable (IsName tokens) note) :
    Takes tokens n (annotationDeclaration g notes) (IsReadable (IsName tokens)) := by
  refine .pass fun m hm => ?_
  refine .pass ?_
  refine takes_identifier.reads.bind fun name _ => ?_
  exact ((h m hm).readable .annotationBody).reads.bind fun body hbody =>
    .pure (by simpa [hbody] using hnotes)

theorem takes_declaredType (h : g.ServesBelow tokens n)
    (hnotes : ∀ note ∈ notes, IsReadable (IsName tokens) note) :
    Takes tokens n (declaredType g notes) (IsReadable (IsName tokens)) :=
  .ite (reads_see _) (takes_classDeclaration h hnotes)
    (.ite (reads_see _) (takes_enumDeclaration h hnotes)
      (.ite (reads_see _) (takes_interfaceDeclaration h hnotes)
        (takes_annotationDeclaration h hnotes)))

/-- A type declaration starts with the annotations before it. -/
theorem takes_typeDeclaration (h : g.ServesBelow tokens n)
    (huse : Takes tokens n (g .annotationUse) (IsReadable (IsName tokens))) :
    Takes tokens n (typeDeclaration g) (IsReadable (IsName tokens)) :=
  (reads_modifiers huse).bindTakes fun _ hnotes =>
    .ite reads_seeDeclaration (takes_declaredType h hnotes) (takes_refuse _ _)

theorem reads_throws : Reads tokens n (discard (commaList qualifiedName)) fun _ => True :=
  (takes_commaList takes_qualifiedName).discard.reads

theorem takes_methodRest (h : g.ServesBelow tokens n)
    (hnotes : ∀ note ∈ notes, IsReadable (IsName tokens) note) (name : String)
    {returned : Parser Tree}
    (hreturned : ∀ m < n, Reads tokens m returned (IsTypeIfAny (IsName tokens))) :
    Takes tokens n (methodRest g notes name returned) (IsReadable (IsName tokens)) := by
  refine (takes_formalParameters h).bind fun m hm ps hps => ?_
  refine (hreturned m hm).bind fun t ht => ?_
  refine .optionally (reads_accept _) reads_throws ?_
  have hrest (body : Tree) (hbody : IsReadable (IsName tokens) body) :
      Reads tokens m (pure (.node .method
        [(.annotations, .list notes), (.name, .word name), (.returnType, t),
          (.parameters, .list ps), (.body, body)])) (IsReadable (IsName tokens)) := by
    refine .pure ?_
    rw [isReadable_node_iff]
    refine ⟨⟨ht, ps, rfl, fun p hp => (hps p hp).2⟩, ?_⟩
    simpa [ht.isReadable, hbody] using ⟨hnotes, fun p hp => (hps p hp).1⟩
  refine .ite (reads_see _) (((h m hm).readable .block).reads.bind hrest) ?_
  exact .pass (hrest .absent isReadable_absent)

theorem takes_voidMethod (h : g.ServesBelow tokens n)
    (hnotes : ∀ note ∈ notes, IsReadable (IsName tokens) note) :
    Takes tokens n (voidMethod g notes) (IsReadable (IsName tokens)) :=
  takes_identifier.reads.bindTakes fun name _ =>
    takes_methodRest h hnotes name fun _ _ => .pure (.inl rfl)

theorem takes_typedMethod (h : g.ServesBelow tokens n)
    (hnotes : ∀ note ∈ notes, IsReadable (IsName tokens) note) (ht : IsType (IsName tokens) t)
    (name : String) : Takes tokens n (typedMethod g notes t name) (IsReadable (IsName tokens)) :=
  takes_methodRest h hnotes name fun _ _ => (reads_withBrackets ht).imp fun _ => .inr

theorem takes_constructor (h : g.ServesBelow tokens n)
    (hnotes : ∀ note ∈ notes, IsReadable (IsName tokens) note) :
    Takes tokens n (constructor g notes) (IsReadable (IsName tokens)) := by
  refine takes_identifier.bind fun m hm name _ => ?_
  refine (takes_formalParameters (h m hm).below).reads.bind fun ps hps => ?_
  refine .optionally (reads_accept _) reads_throws ?_
  refine ((h m hm).readable .block).reads.bind fun body hbody => .pure ?_
  simpa [hbody] using ⟨hnotes, fun p hp => (hps p hp).1⟩

theorem takes_fieldRest (h : g.Serves tokens n)
    (hnotes : ∀ note ∈ notes, IsReadable (IsName tokens) note) (ht : IsType (IsName tokens) t)
    (name : String) : Takes tokens n (fieldRest g notes t name) (IsReadable (IsName tokens)) := by
  refine reads_brackets.bindTakes fun dims _ => ?_
  refine (reads_optionalValue h).bindTakes fun value hvalue => ?_
  refine (reads_moreDeclarators h).bindTakes fun more hmore => ?_
  refine .pass fun _ _ => .pure ?_
  refine isReadable_variables (by simp [Kind.isField]) hnotes ht ?_
  simpa using ⟨isDeclarator_declarator name dims hvalue, hmore⟩

theorem takes_constantRest (h : g.ServesBelow tokens n) (name : String) :
    Takes tokens n (constantRest g name) (IsDeclarator (IsName tokens)) := by
  refine reads_brackets.bindTakes fun dims _ => ?_
  refine .pass fun m hm => ?_
  have hvalue := takes_variableValue (h m hm).below ((h m hm).readable .expression)
  exact hvalue.reads.bind fun value hvalue => .pure (isDeclarator_declarator name dims hvalue)

theorem takes_constantsRest (h : g.ServesBelow tokens n)
    (hnotes : ∀ note ∈ notes, IsReadable (IsName tokens) note) (ht : IsType (IsName tokens) t)
    (name : String) :
    Takes tokens n (constantsRest g notes t name) (IsReadable (IsName tokens)) := by
  refine (takes_constantRest h name).bind fun m hm first hfirst => ?_
  have hnext : Takes tokens m (do constantRest g (← identifier)) (IsDeclarator (IsName tokens)) :=
    takes_identifier.reads.bindTakes fun name _ =>
      takes_constantRest (h.mono (Nat.le_of_lt hm)) name
  refine (reads_whileM (reads_accept _) hnext).bind fun more hmore => .pure ?_
  refine isReadable_variables (by simp [Kind.isField]) hnotes ht ?_
  simpa using ⟨hfirst, hmore⟩

theorem reads_seeConstructor : Reads tokens n seeConstructor fun _ => True :=
  reads_see _

theorem takes_member (h : g.Serves tokens n)
    (hnotes : ∀ note ∈ notes, IsReadable (IsName tokens) note) :
    Takes tokens n (member g notes) (IsReadable (IsName tokens)) := by
  have hvoid {m : Nat} (hm : m ≤ n) := (takes_voidMethod (h.mono hm).below hnotes).reads
  refine .ifAccept (fun m hm => hvoid (Nat.le_of_lt hm)) ?_
  refine .ite (reads_see _) ?_ ?_
  · refine (takes_typeParameters h.below).bind fun m hm _ _ => ?_
    have h := h.mono (Nat.le_of_lt hm)
    refine .ite reads_seeConstructor (takes_constructor h.below hnotes).reads ?_
    refine .ite (reads_accept _) (hvoid (Nat.le_of_lt hm)) ?_
    refine (takes_type h).reads.bind fun t ht => ?_
    exact takes_identifier.reads.bind fun name _ => (takes_typedMethod h.below hnotes ht name).reads
  refine .ite reads_seeDeclaration (takes_declaredType h.below hnotes) ?_
  refine .ite reads_seeConstructor (takes_constructor h.below hnotes) ?_
  refine (takes_type h).reads.bindTakes fun t ht => ?_
  refine takes_identifier.reads.bindTakes fun name _ => ?_
  exact .ite (reads_see _) (takes_typedMethod h.below hnotes ht name)
    (takes_fieldRest h hnotes ht name)

theorem takes_classMember (h : g.Serves tokens n) :
    Takes tokens n (classMember g) (IsReadable (IsName tokens)) := by
  refine .ifAccept (fun _ _ => .pure (by simp)) ?_
  refine .ite (reads_see _) ?_ ?_
  · exact takes_next.discard.reads.bindTakes fun _ _ => h.readable .block
  refine .ite (reads_see _) (h.readable .block) ?_
  exact (reads_modifiers (h.readable .annotationUse)).bindTakes fun _ hnotes =>
    takes_member h hnotes

theorem takes_interfaceMember (h : g.Serves tokens n) :
    Takes tokens n (interfaceMember g) (IsReadable (IsName tokens)) := by
  refine .ifAccept (fun _ _ => .pure (by simp)) ?_
  refine (reads_modifiers (h.readable .annotationUse)).bindTakes fun notes hnotes => ?_
  refine .ite reads_seeDeclaration (takes_declaredType h.below hnotes) ?_
  refine .ite (reads_see _) ?_ ?_
  · refine (takes_typeParameters h.below).bind fun m hm _ _ => ?_
    have h := h.mono (Nat.le_of_lt hm)
    refine .iteBind (P := IsTypeIfAny (IsName tokens)) (reads_accept _) (.pure (.inl rfl))
      ((takes_type h).reads.imp fun _ => .inr) fun t ht => ?_
    refine takes_identifier.reads.bind fun name _ => ?_
    exact (takes_methodRest h.below hnotes name fun _ _ =>
      reads_brackets.discard.bind fun _ _ => .pure ht).reads
  refine .ifAccept (fun m hm => ?_) ?_
  · exact (takes_voidMethod (h.below.mono (Nat.le_of_lt hm)) hnotes).reads
  refine (takes_type h).bind fun m hm t ht => ?_
  have h := h.mono (Nat.le_of_lt hm)
  refine takes_identifier.reads.bind fun name _ => ?_
  refine .ite (reads_see _) (takes_typedMethod h.below hnotes ht name).reads ?_
  refine (takes_constantsRest h.below hnotes ht name).reads.bind fun c hc => ?_
  exact .pass (.pure hc)

theorem takes_annotationMember (h : g.Serves tokens n) :
    Takes tokens n (annotationMember g) (IsReadable (IsName tokens)) := by
  refine (reads_modifiers (h.readable .annotationUse)).bindTakes fun notes hnotes => ?_
  refine .ite reads_seeDeclaration (takes_declaredType h.below hnotes) ?_
  refine (takes_type h).bind fun m hm t ht => ?_
  have h := h.mono (Nat.le_of_lt hm)
  refine takes_identifier.reads.bind fun name _ => ?_
  have hrest (member : Tree) (hmember : IsReadable (IsName tokens) member) :
      Reads tokens m (do discard <| expect ";"; return member) (IsReadable (IsName tokens)) :=
    .pass (.pure hmember)
  refine .ite (reads_accept _) ?_ ((takes_constantsRest h.below hnotes ht name).reads.bind hrest)
  refine .pass ?_
  refine reads_brackets.bind fun dims _ => ?_
  have hvalue := takes_elementValue h.below (h.readable .annotationUse) (h.readable .conditional)
  refine .iteBind (reads_accept _) hvalue.reads (.pure (by simp)) fun value hvalue => hrest _ ?_
  simpa [(ht.addBrackets dims).isReadable, hvalue] using hnotes

theorem takes_braced {p : Parser Tree}
    (h : ∀ m < n, Takes tokens m p (IsReadable (IsName tokens))) :
    Takes tokens n (braced p) (IsReadable (IsName tokens)) := by
  refine .pass fun m hm => ?_
  refine (reads_untilM (reads_see _) (h m hm)).bind fun members hmembers => ?_
  exact .pass (.pure (isReadable_list_iff.mpr hmembers))

theorem takes_enumConstant (h : g.Serves tokens n) :
    Takes tokens n (enumConstant g) (IsReadable (IsName tokens)) := by
  refine .iteBind (reads_seeKind _) (takes_annotations (h.readable .annotationUse)).reads
    (.pure (by simp)) fun notes hnotes => ?_
  refine takes_identifier.bind fun m hm name _ => ?_
  have h := h.mono (Nat.le_of_lt hm)
  refine (reads_ifSee _ (takes_arguments h.below).reads).bind fun row hrow => ?_
  exact .iteBind (reads_see _) (h.readable .classBody).reads (.pure (by simp)) fun body hbody =>
    .pure (by simpa [hrow, hbody] using hnotes)

theorem reads_enumConstants (h : g.Serves tokens n) :
    Reads tokens n (enumConstants g) fun ts => ∀ t ∈ ts, IsReadable (IsName tokens) t := by
  refine .ite (reads_accept _) (.pure (by simp)) (reads_whileMore ?_)
  refine .ite (reads_seeAnyOf _) (Runs.pure fun _ => ⟨nofun, nofun⟩) (Takes.rounds ?_)
  refine (takes_enumConstant h).bind fun _ _ c hc => ?_
  exact (reads_accept _).bind fun _ _ => .pure (by simpa using hc)

theorem takes_enumBody (h : g.ServesBelow tokens n) :
    Takes tokens n (enumBody g) (IsReadable (IsName tokens)) := by
  refine .pass fun m hm => ?_
  refine (reads_enumConstants (h m hm)).bind fun constants hconstants => ?_
  have hmembers := reads_untilM (reads_see [closeBrace]) (takes_classMember (h m hm))
  refine .iteBind (reads_accept _) hmembers (.pure (by simp)) fun members hmembers => ?_
  exact .pass (.pure (by simpa using ⟨hconstants, hmembers⟩))

end TypeAtlas.Java.Parser
