import TypeAtlas.Java.Parser.Variables
import TypeAtlas.Proofs.Java.Parser.Types

namespace TypeAtlas.Java.Parser

open TypeAtlas.Java.Tree

variable {tokens : List Token} {g : Grammar} {n : Nat}

theorem takes_annotationArguments (h : g.Serves tokens n) :
    Takes tokens n (annotationArguments g) (IsReadable (IsName tokens)) := by
  refine .ite (reads_see _) ?_ (h.readable .elementValue)
  refine (takes_commaList ?_).bind fun _ _ row hrow => .pure (isReadable_list_iff.mpr hrow)
  refine takes_identifier.discard.reads.bindTakes fun _ _ => ?_
  exact (takes_expect _).discard.reads.bindTakes fun _ _ => h.readable .elementValue

theorem takes_annotationUse (h : g.ServesBelow tokens n) :
    Takes tokens n (annotationUse g) (IsReadable (IsName tokens)) := by
  refine .pass fun m hm => ?_
  refine takes_qualifiedName.reads.bind fun name _ => ?_
  refine .ite (reads_accept _) ?_ (.pure (by simp))
  have hrest (element : Tree) (helement : IsReadable (IsName tokens) element) :
      Reads tokens m (do
        discard <| expect ")"
        return .node .annotationUse [(.name, .word name), (.element, element)])
        (IsReadable (IsName tokens)) :=
    .pass (.pure (by simp [helement]))
  exact .ite (reads_see _) (hrest .absent isReadable_absent)
    ((takes_annotationArguments (h m hm)).reads.bind hrest)

theorem takes_elementValues (h : g.ServesBelow tokens n) :
    Takes tokens n (elementValues g) (IsReadable (IsName tokens)) := by
  refine .pass fun m hm => ?_
  refine .ite (reads_accept _) (.pure (by simp)) ?_
  have hvalue := (h m hm).readable .elementValue
  refine hvalue.reads.bind fun first hfirst => ?_
  have hdone : Reads tokens m (do return (← see [closeBrace]) || (← see [",", closeBrace]))
      fun _ => True :=
    (reads_see _).bind fun _ _ => (reads_see _).bind fun _ _ => .pure trivial
  have hnext : Takes tokens m (do discard <| expect ","; g .elementValue)
      (IsReadable (IsName tokens)) :=
    (takes_expect _).discard.reads.bindTakes fun _ _ => hvalue
  refine (reads_untilM hdone hnext).bind fun rest hrest => ?_
  refine (reads_accept _).discard.bind fun _ _ => ?_
  refine .pass (.pure ?_)
  simpa using ⟨hfirst, hrest⟩

/-- The value of an annotation starts with what is inside it. -/
theorem takes_elementValue (h : g.ServesBelow tokens n)
    (huse : Takes tokens n (g .annotationUse) (IsReadable (IsName tokens)))
    (hconditional : Takes tokens n (g .conditional) (IsReadable (IsName tokens))) :
    Takes tokens n (elementValue g) (IsReadable (IsName tokens)) :=
  .ite (reads_seeAnnotationUse _) huse
    (.ite (reads_see _) (takes_elementValues h) hconditional)

theorem takes_annotations
    (huse : Takes tokens n (g .annotationUse) (IsReadable (IsName tokens))) :
    Takes tokens n (annotations g) fun notes => ∀ t ∈ notes, IsReadable (IsName tokens) t :=
  (takes_manyWith (reads_seeAnnotationUse _) huse).imp fun _ h => h.2

theorem tries_annotationUse
    (huse : Takes tokens n (g .annotationUse) (IsReadable (IsName tokens))) :
    Tries tokens n (do if ← seeAnnotationUse 0 then return some [← g .annotationUse] else return none)
      fun notes => ∀ t ∈ notes, IsReadable (IsName tokens) t :=
  Tries.ite (reads_seeAnnotationUse _)
    (huse.bind fun _ _ t ht => .pure (by simpa using ht)).tries tries_none

theorem reads_modifiers
    (huse : Takes tokens n (g .annotationUse) (IsReadable (IsName tokens))) :
    Reads tokens n (modifiers g) fun notes => ∀ t ∈ notes, IsReadable (IsName tokens) t := by
  refine (reads_untilNone (Tries.ite (reads_seeKind _) ?_ (tries_annotationUse huse))).bind
    fun found hfound => .pure ?_
  · exact (takes_next.discard.bind fun _ _ _ _ => .pure (by simp)).tries
  · simpa using fun t notes hnotes ht => hfound notes hnotes t ht

theorem reads_variableModifiers
    (huse : Takes tokens n (g .annotationUse) (IsReadable (IsName tokens))) :
    Reads tokens n (variableModifiers g) fun notes =>
      ∀ t ∈ notes, IsReadable (IsName tokens) t := by
  refine (reads_untilNone (.ifAccept (fun _ _ => .pure (by simp))
    (tries_annotationUse huse))).bind fun found hfound => .pure ?_
  simpa using fun t notes hnotes ht => hfound notes hnotes t ht

theorem takes_arrayValue (h : g.ServesBelow tokens n) :
    Takes tokens n (arrayValue g) (IsReadable (IsName tokens)) := by
  refine .pass fun m hm => ?_
  refine .ite (reads_accept _) (.pass (.pure (by simp))) ?_
  refine .ite (reads_accept _) (.pure (by simp)) ?_
  have hitem : Takes tokens m (do
      let v ← g .variableValue
      unless ← see [closeBrace] do discard <| expect ","
      return v) (IsReadable (IsName tokens)) := by
    refine ((h m hm).readable .variableValue).bind fun k _ v hv => ?_
    exact .ite (reads_see _) (.pure hv) (.pass (.pure hv))
  refine hitem.reads.bind fun first hfirst => ?_
  refine (reads_untilM (reads_accept _) hitem).bind fun rest hrest => .pure ?_
  simpa using ⟨hfirst, hrest⟩

/-- The value of a variable starts with what is inside it. -/
theorem takes_variableValue (h : g.ServesBelow tokens n)
    (hexpression : Takes tokens n (g .expression) (IsReadable (IsName tokens))) :
    Takes tokens n (variableValue g) (IsReadable (IsName tokens)) :=
  .ite (reads_see _) (takes_arrayValue h) hexpression

theorem reads_optionalValue (h : g.Serves tokens n) :
    Reads tokens n (optionalValue g) (IsReadable (IsName tokens)) :=
  .ite (reads_accept _) (takes_variableValue h.below (h.readable .expression)).reads
    (.pure (by simp))

/-- A variable with the number of brackets after its name. -/
def IsDeclarator (N : TokenKind → Text → Prop) (t : Tree) : Prop :=
  IsReadable N t ∧ ∃ m, (t.part .dimensions).count = .ok m

theorem isDeclarator_declarator {N : TokenKind → Text → Prop} (name : String) (dims : Nat) {value : Tree}
    (h : IsReadable N value) : IsDeclarator N (declarator name dims value) :=
  ⟨by simp [declarator, isReadable_brackets, h], _, rfl⟩

theorem takes_variableDeclarator (h : g.Serves tokens n) :
    Takes tokens n (variableDeclarator g) (IsDeclarator (IsName tokens)) := by
  refine takes_identifier.bind fun m hm name _ => ?_
  refine reads_brackets.bind fun dims _ => ?_
  exact (reads_optionalValue (h.mono (Nat.le_of_lt hm))).bind fun value hvalue =>
    .pure (isDeclarator_declarator name dims hvalue)

theorem reads_moreDeclarators (h : g.Serves tokens n) :
    Reads tokens n (moreDeclarators g) fun ds => ∀ d ∈ ds, IsDeclarator (IsName tokens) d :=
  reads_whileM (reads_accept _) (takes_variableDeclarator h)

/-- Variables with their type and notes have all that is read off them. -/
theorem isReadable_variables {N : TokenKind → Text → Prop} {k : Kind} {notes ds : List Tree} {t : Tree}
    (hk : k.isField = true ∨ k.isVariables = true) (hnotes : ∀ note ∈ notes, IsReadable N note)
    (ht : IsType N t) (hds : ∀ d ∈ ds, IsDeclarator N d) :
    IsReadable N
      (.node k [(.annotations, .list notes), (.type, t), (.declarators, .list ds)]) := by
  have hkind : (k = .field ∨ k = .constant) ∨ k = .loopVariables ∨ k = .localVariables := by
    simpa [Kind.isField, Kind.isVariables] using hk
  rw [isReadable_node_iff]
  constructor
  · have hown : IsType N t ∧ ∃ ds', Tree.list ds = .list ds' ∧
        ∀ d ∈ ds', ∃ m, (d.part .dimensions).count = .ok m :=
      ⟨ht, ds, rfl, fun d hd => (hds d hd).2⟩
    obtain (rfl | rfl) | rfl | rfl := hkind
    all_goals exact hown
  · simpa [ht.isReadable] using ⟨hnotes, fun d hd => (hds d hd).1⟩

theorem takes_localVariables (h : g.Serves tokens n) :
    Takes tokens n (localVariables g) (IsReadable (IsName tokens)) := by
  refine (reads_variableModifiers (h.readable .annotationUse)).bindTakes fun notes hnotes => ?_
  refine (takes_type h).bind fun m hm t ht => ?_
  have h := h.mono (Nat.le_of_lt hm)
  refine (takes_commaList (takes_variableDeclarator h)).reads.bind fun ds hds => ?_
  refine .pass (.pure ?_)
  exact isReadable_variables (by simp [Kind.isVariables]) hnotes ht hds

/-- A parameter with its type. -/
def IsParameter (N : TokenKind → Text → Prop) (t : Tree) : Prop :=
  IsReadable N t ∧ t.kind? = some .formalParameter ∧ IsType N (t.part .type)

theorem takes_formalParameter (h : g.Serves tokens n) :
    Takes tokens n (formalParameter g) fun found => IsParameter (IsName tokens) found.1 := by
  refine (reads_variableModifiers (h.readable .annotationUse)).bindTakes fun notes hnotes => ?_
  refine (takes_type h).bind fun m hm t ht => ?_
  refine (reads_accept _).bind fun isVariadic _ => ?_
  refine takes_identifier.reads.bind fun name _ => ?_
  refine reads_brackets.bind fun dims _ => ?_
  have hparameter (more : Bool) : Reads tokens m (pure (.node .formalParameter
      [(.annotations, .list notes), (.type, t.addBrackets dims), (.name, .word name),
        (.isVariadic, .flag isVariadic)], more)) fun found => IsParameter (IsName tokens) found.1 := by
    have htype := ht.addBrackets dims
    refine .pure ⟨?_, rfl, htype⟩
    simpa [htype.isReadable] using hnotes
  cases isVariadic with
  | true => exact hparameter false
  | false => exact (reads_accept _).bind fun more _ => hparameter more

theorem takes_formalParameters (h : g.ServesBelow tokens n) :
    Takes tokens n (formalParameters g) fun ps => ∀ p ∈ ps, IsParameter (IsName tokens) p := by
  refine .pass fun m hm => ?_
  refine .ite (reads_accept _) (.pure (by simp)) ?_
  refine (reads_whileMore (P := IsParameter (IsName tokens)) (Takes.rounds ?_)).bind
    fun ps hps => .pass (.pure hps)
  exact (takes_formalParameter (h m hm)).bind fun _ _ found hfound => .pure (by simpa using hfound)

end TypeAtlas.Java.Parser
