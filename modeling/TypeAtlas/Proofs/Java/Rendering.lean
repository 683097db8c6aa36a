import TypeAtlas.Java.TypeText
import TypeAtlas.Proofs.Except

namespace TypeAtlas.Java.Tree

mutual

/-- `Written t s` says that `s` is how the type `t` is written. -/
inductive Written : Tree → Text → Prop
  | void : Written .absent "void"
  | basic {parts : List (Part × Tree)} {s : Text} {n : Nat} :
      (Tree.node .basicType parts).part .name = .word s →
        ((Tree.node .basicType parts).part .dimensions).count = .ok n →
          Written (.node .basicType parts) (s ++ bracketText n)
  | reference {k : Kind} {parts : List (Part × Tree)} {links : List Text} {n : Nat} :
      k ≠ .basicType → Links (.node k parts) links →
        ((Tree.node k parts).part .dimensions).count = .ok n →
          Written (.node k parts) (Text.join "." links ++ bracketText n)

/-- `Links t ss` says that the references in the chain of `t` are written as `ss`. -/
inductive Links : Tree → List Text → Prop
  | nil : Links .absent []
  | plain {k : Kind} {parts : List (Part × Tree)} {s : Text} {rest : List Text} :
      (Tree.node k parts).part .name = .word s →
        ((Tree.node k parts).part .arguments).isGiven = false →
          Links ((Tree.node k parts).part .inner) rest → Links (.node k parts) (s :: rest)
  | generic {k : Kind} {parts : List (Part × Tree)} {s : Text} {arguments : List Tree}
      {texts rest : List Text} :
      (Tree.node k parts).part .name = .word s →
        (Tree.node k parts).part .arguments = .list arguments → arguments ≠ [] →
          List.Forall₂ Argument arguments texts → Links ((Tree.node k parts).part .inner) rest →
            Links (.node k parts) ((s ++ "<" ++ Text.join ", " texts ++ ">") :: rest)

/-- `Argument t s` says that the type argument `t` is written as `s`. -/
inductive Argument : Tree → Text → Prop
  | wildcard {k : Kind} {parts : List (Part × Tree)} :
      (Tree.node k parts).part .pattern = .word "?" → Argument (.node k parts) "?"
  | bounded {k : Kind} {parts : List (Part × Tree)} {w s : Text} :
      (Tree.node k parts).part .pattern = .word w → w = "extends" ∨ w = "super" →
        Written ((Tree.node k parts).part .type) s →
          Argument (.node k parts) ("? " ++ w ++ " " ++ s)
  | plain {k : Kind} {parts : List (Part × Tree)} {s : Text} :
      (∀ w : Text, w = "?" ∨ w = "extends" ∨ w = "super" →
        (Tree.node k parts).part .pattern ≠ .word w) →
        Written ((Tree.node k parts).part .type) s → Argument (.node k parts) s

end

theorem demand_eq_ok {t v : Tree} {p : Part} (h : t.demand p = .ok v) : v = t.part p := by
  unfold demand at h
  split at h
  · exact (Except.ok.inj h).symm
  · cases h

theorem chainWords_eq_ok_iff {index : Nat} {links : List Tree} {ss : List Text} :
    chainWords index links = .ok ss ↔ links = ss.map .word := by
  induction links generalizing index ss with
  | nil =>
    rw [chainWords, Except.ok.injEq]
    cases ss <;> simp
  | cons t links ih =>
    cases t with
    | word s =>
      rw [chainWords, map_eq_ok_iff]
      simp only [ih]
      cases ss with
      | nil => simp
      | cons s' ss => simp [and_comm]
    | absent | flag | number | list | node =>
      rw [chainWords] <;> cases ss <;> simp

theorem joinChain_eq_ok_iff {links : List Tree} {s : Text} :
    joinChain links = .ok s ↔ ∃ ss, links = ss.map .word ∧ Text.join "." ss = s := by
  simp only [joinChain, map_eq_ok_iff, chainWords_eq_ok_iff]

/-- A reference with this name and the texts of the type arguments that it is given. -/
def linkOf (name given : Tree) (arguments : List Text) : Except TreeFault Tree :=
  if given.isGiven = false then .ok name
  else if arguments = [] then .error (argumentFault given)
  else withArguments name arguments

theorem linkTexts_node (k : Kind) (parts : List (Part × Tree)) :
    (Tree.node k parts).linkTexts = do
      let name ← (Tree.node k parts).demand .name
      let arguments ← ((Tree.node k parts).part .arguments).listed.mapM argumentText
      let link ← linkOf name ((Tree.node k parts).part .arguments) arguments
      return link :: (← linkTexts ((Tree.node k parts).part .inner)) := by
  rw [linkTexts]
  simp only [List.mapM_subtype, List.unattach_attach, linkOf]
  congr 1
  funext name
  congr 1
  funext arguments
  cases ((Tree.node k parts).part .arguments).isGiven with
  | false => rfl
  | true => cases arguments <;> rfl


theorem withArguments_eq_ok {name : Tree} {arguments : List Text} {s : Text}
    (h : withArguments name arguments = .ok (.word s)) :
    ∃ w, name = .word w ∧ s = w ++ "<" ++ Text.join ", " arguments ++ ">" := by
  cases name with
  | word w =>
    have hs := Tree.word.inj (Except.ok.inj h)
    exact ⟨w, rfl, hs.symm⟩
  | absent | flag | number | list | node => cases h

/-- What a reference and the rest of its chain are written as, where they can be. -/
theorem exists_of_linkTexts_eq_ok {k : Kind} {parts : List (Part × Tree)} {ss : List Text}
    (h : (Tree.node k parts).linkTexts = .ok (ss.map .word)) :
    ∃ name rest, (Tree.node k parts).part .name = .word name ∧
      ((Tree.node k parts).part .inner).linkTexts = .ok (rest.map .word) ∧
      ((((Tree.node k parts).part .arguments).isGiven = false ∧ ss = name :: rest) ∨
        ∃ arguments texts, (Tree.node k parts).part .arguments = .list arguments ∧
          arguments ≠ [] ∧ List.Forall₂ (fun a s => argumentText a = .ok s) arguments texts ∧
          ss = (name ++ "<" ++ Text.join ", " texts ++ ">") :: rest) := by
  simp only [linkTexts_node, bind_eq_ok_iff, pure_eq_ok_iff] at h
  obtain ⟨name, hname, texts, htexts, link, hlink, links, hrest, hss⟩ := h
  obtain rfl := demand_eq_ok hname
  obtain ⟨s, rest, rfl, rfl, rfl⟩ : ∃ s rest, ss = s :: rest ∧ link = .word s ∧
      links = rest.map .word := by
    cases ss with
    | nil => simp at hss
    | cons s rest =>
      rw [List.map_cons, List.cons.injEq] at hss
      exact ⟨s, rest, rfl, hss⟩
  unfold linkOf at hlink
  split at hlink
  · rename_i hgiven
    exact ⟨s, rest, Except.ok.inj hlink, hrest, .inl ⟨hgiven, rfl⟩⟩
  · split at hlink
    · cases hlink
    · rename_i hnonempty
      obtain ⟨name, hname, rfl⟩ := withArguments_eq_ok hlink
      obtain ⟨arguments, harguments⟩ : ∃ arguments,
          (Tree.node k parts).part .arguments = .list arguments := by
        cases hpart : (Tree.node k parts).part .arguments with
        | list arguments => exact ⟨arguments, rfl⟩
        | absent | flag | number | word | node =>
          rw [hpart] at htexts
          exact absurd (pure_eq_ok_iff.mp htexts).symm hnonempty
      rw [harguments] at htexts
      have hall := mapM_eq_ok_iff.mp htexts
      refine ⟨name, rest, hname, hrest, .inr ⟨arguments, texts, harguments, ?_, hall, rfl⟩⟩
      rintro rfl
      cases hall
      exact hnonempty rfl


/-- How a type is written, where it can be. -/
theorem exists_of_typeText_eq_ok {k : Kind} {parts : List (Part × Tree)} {s : Text}
    (h : (Tree.node k parts).typeText = .ok s) :
    ∃ name n, ((Tree.node k parts).part .dimensions).count = .ok n ∧ s = name ++ bracketText n ∧
      ((k = .basicType ∧ (Tree.node k parts).part .name = .word name) ∨
        (k ≠ .basicType ∧ ∃ ss, (Tree.node k parts).linkTexts = .ok (ss.map .word) ∧
          name = Text.join "." ss)) := by
  rw [typeText] at h
  by_cases hk : k = .basicType
  · subst hk
    simp only [if_true, bind_eq_ok_iff] at h
    obtain ⟨name, hname, dimensions, hdimensions, n, hn, h⟩ := h
    obtain rfl := demand_eq_ok hname
    obtain rfl := demand_eq_ok hdimensions
    cases hword : (Tree.node .basicType parts).part .name with
    | word name =>
      rw [hword] at h
      exact ⟨name, n, hn, (pure_eq_ok_iff.mp h).symm, .inl ⟨rfl, rfl⟩⟩
    | absent | flag | number | list | node =>
      rw [hword] at h
      cases h
  · simp only [hk, if_false, bind_eq_ok_iff, map_eq_ok_iff, joinChain_eq_ok_iff] at h
    obtain ⟨links, hlinks, _, ⟨name, ⟨ss, rfl, rfl⟩, rfl⟩, dimensions, hdimensions, n, hn, h⟩ := h
    obtain rfl := demand_eq_ok hdimensions
    exact ⟨_, n, hn, (pure_eq_ok_iff.mp h).symm, .inr ⟨hk, ss, hlinks, rfl⟩⟩

theorem exists_of_argumentText_eq_ok {k : Kind} {parts : List (Part × Tree)} {s : Text}
    (h : (Tree.node k parts).argumentText = .ok s) :
    ((Tree.node k parts).part .pattern = .word "?" ∧ s = "?") ∨
      ∃ text, ((Tree.node k parts).part .type).typeText = .ok text ∧
        ((∃ w : Text, (Tree.node k parts).part .pattern = .word w ∧ (w = "extends" ∨ w = "super") ∧
            s = "? " ++ w ++ " " ++ text) ∨
          ((∀ w : Text, w = "?" ∨ w = "extends" ∨ w = "super" →
            (Tree.node k parts).part .pattern ≠ .word w) ∧ s = text)) := by
  simp only [argumentText, bind_eq_ok_iff] at h
  obtain ⟨pattern, hpattern, h⟩ := h
  obtain rfl := demand_eq_ok hpattern
  split at h
  · rename_i hmark
    refine .inl ⟨?_, (pure_eq_ok_iff.mp h).symm⟩
    cases hword : (Tree.node k parts).part .pattern with
    | word w =>
      rw [hword] at hmark
      exact congrArg word (Option.some.inj hmark)
    | absent | flag | number | list | node =>
      rw [hword] at hmark
      cases hmark
  · rename_i hmark
    obtain ⟨text, htext, h⟩ := bind_eq_ok_iff.mp h
    refine .inr ⟨text, htext, ?_⟩
    cases hword : (Tree.node k parts).part .pattern with
    | word w =>
      rw [hword] at h hmark
      have hs := (pure_eq_ok_iff.mp h).symm
      by_cases hw : w = "extends" ∨ w = "super"
      · rw [if_pos hw] at hs
        exact .inl ⟨w, rfl, hw, hs⟩
      · rw [if_neg hw] at hs
        refine .inr ⟨?_, hs⟩
        rintro v hv heq
        obtain rfl := Tree.word.inj heq
        obtain rfl | hv := hv
        · exact hmark rfl
        · exact hw hv
    | absent | flag | number | list | node =>
      rw [hword] at h
      refine .inr ⟨?_, (pure_eq_ok_iff.mp h).symm⟩
      simp

/-- Where a relation holds of each member of a list and of one thing only, it holds of the list and
of one list only. -/
theorem forall₂_iff_eq {α β : Type} {R P : α → β → Prop} {xs : List α} {ys : List β}
    (h : List.Forall₂ P xs ys) (hR : ∀ x ∈ xs, ∀ y, P x y → ∀ z, R x z ↔ z = y) (zs : List β) :
    List.Forall₂ R xs zs ↔ zs = ys := by
  induction h generalizing zs with
  | nil => simp
  | @cons x y xs ys hxy _ ih =>
    have hx := hR x List.mem_cons_self y hxy
    have hrest := ih fun v hv => hR v (List.mem_cons_of_mem x hv)
    constructor
    · intro hall
      cases hall with
      | cons hz hzs => rw [(hx _).mp hz, (hrest _).mp hzs]
    · rintro rfl
      exact .cons ((hx y).mpr rfl) ((hrest _).mpr rfl)

theorem sizeOf_argument_lt {k : Kind} {parts : List (Part × Tree)} {arguments : List Tree}
    (h : (Tree.node k parts).part .arguments = .list arguments) {a : Tree} (ha : a ∈ arguments) :
    sizeOf a < 1 + sizeOf k + sizeOf parts := by
  have hpart := sizeOf_part_lt k parts .arguments
  have hmem := List.sizeOf_lt_of_mem ha
  rw [h, Tree.list.sizeOf_spec] at hpart
  omega

mutual

/-- The text that is found for a type is how it is written, and it is written in no other way. -/
theorem written_iff_of_typeText (t : Tree) {s : Text} (h : t.typeText = .ok s) (s' : Text) :
    Written t s' ↔ s' = s := by
  match t with
  | .absent =>
    rw [typeText, Except.ok.injEq] at h
    subst h
    constructor
    · rintro ⟨⟩
      rfl
    · rintro rfl
      exact .void
  | .node k parts =>
    obtain ⟨name, n, hn, rfl, ⟨rfl, hname⟩ | ⟨hk, ss, hlinks, rfl⟩⟩ := exists_of_typeText_eq_ok h
    · constructor
      · intro hwritten
        cases hwritten with
        | basic hname' hn' =>
          rw [hname, Tree.word.injEq] at hname'
          rw [hn, Except.ok.injEq] at hn'
          rw [hname', hn']
        | reference hk _ _ => exact absurd rfl hk
      · rintro rfl
        exact .basic hname hn
    · have ih := links_iff_of_linkTexts (.node k parts) hlinks
      constructor
      · intro hwritten
        cases hwritten with
        | basic _ _ => exact absurd rfl hk
        | reference _ hlinks' hn' =>
          rw [hn, Except.ok.injEq] at hn'
          rw [(ih _).mp hlinks', hn']
      · rintro rfl
        exact .reference hk ((ih ss).mpr rfl) hn
  | .flag _ | .number _ | .word _ | .list _ =>
    simp [typeText] at h
termination_by (sizeOf t, 2)
decreasing_by
  exact Prod.Lex.right _ (by decide)

theorem links_iff_of_linkTexts (t : Tree) {ss : List Text}
    (h : t.linkTexts = .ok (ss.map .word)) (ss' : List Text) : Links t ss' ↔ ss' = ss := by
  match t with
  | .absent =>
    rw [linkTexts, Except.ok.injEq, eq_comm, List.map_eq_nil_iff] at h
    subst h
    constructor
    · rintro ⟨⟩
      rfl
    · rintro rfl
      exact .nil
  | .node k parts =>
    obtain ⟨name, rest, hname, hrest, hlink⟩ := exists_of_linkTexts_eq_ok h
    have hlt := sizeOf_part_lt k parts .inner
    have ih := links_iff_of_linkTexts _ hrest
    obtain ⟨hgiven, rfl⟩ | ⟨arguments, texts, hlist, hne, hall, rfl⟩ := hlink
    · constructor
      · intro hlinks
        cases hlinks with
        | plain hname' _ hrest' =>
          rw [hname, Tree.word.injEq] at hname'
          rw [hname', (ih _).mp hrest']
        | generic _ hlist hne _ _ =>
          rw [hlist] at hgiven
          simp [isGiven, hne] at hgiven
      · rintro rfl
        exact .plain hname hgiven ((ih rest).mpr rfl)
    · have hagree (texts' : List Text) :
          List.Forall₂ Argument arguments texts' ↔ texts' = texts := by
        refine forall₂_iff_eq hall (fun a ha s hs => ?_) texts'
        have hlt := sizeOf_argument_lt hlist ha
        exact argument_iff_of_argumentText a hs
      constructor
      · intro hlinks
        cases hlinks with
        | plain _ hgiven _ =>
          rw [hlist] at hgiven
          simp [isGiven, hne] at hgiven
        | generic hname' hlist' _ hall' hrest' =>
          rw [hname, Tree.word.injEq] at hname'
          rw [hlist, Tree.list.injEq] at hlist'
          subst hlist'
          rw [hname', (hagree _).mp hall', (ih _).mp hrest']
      · rintro rfl
        exact .generic hname hlist hne ((hagree texts).mpr rfl) ((ih rest).mpr rfl)
  | .flag _ | .number _ | .word _ | .list _ =>
    simp [linkTexts] at h
termination_by (sizeOf t, 1)
decreasing_by
  all_goals exact Prod.Lex.left _ _ (by simpa using hlt)

theorem argument_iff_of_argumentText (t : Tree) {s : Text} (h : t.argumentText = .ok s)
    (s' : Text) : Argument t s' ↔ s' = s := by
  match t with
  | .node k parts =>
    have hlt := sizeOf_part_lt k parts .type
    obtain ⟨hmark, rfl⟩ | ⟨text, htext, hbound⟩ := exists_of_argumentText_eq_ok h
    · constructor
      · intro hargument
        cases hargument with
        | wildcard _ => rfl
        | bounded hw hbound _ =>
          rw [hmark, Tree.word.injEq] at hw
          subst hw
          exact absurd hbound (by decide)
        | plain hnone _ => exact absurd hmark (hnone "?" (.inl rfl))
      · rintro rfl
        exact .wildcard hmark
    · have ih := written_iff_of_typeText _ htext
      obtain ⟨w, hw, hbound, rfl⟩ | ⟨hnone, rfl⟩ := hbound
      · constructor
        · intro hargument
          cases hargument with
          | wildcard hmark =>
            rw [hmark, Tree.word.injEq] at hw
            subst hw
            exact absurd hbound (by decide)
          | bounded hw' _ hwritten =>
            rw [hw, Tree.word.injEq] at hw'
            rw [hw', (ih _).mp hwritten]
          | plain hnone _ => exact absurd hw (hnone w (.inr hbound))
        · rintro rfl
          exact .bounded hw hbound ((ih text).mpr rfl)
      · constructor
        · intro hargument
          cases hargument with
          | wildcard hmark => exact absurd hmark (hnone "?" (.inl rfl))
          | bounded hw hbound _ => exact absurd hw (hnone _ (.inr hbound))
          | plain _ hwritten => exact (ih _).mp hwritten
        · rintro rfl
          exact .plain hnone ((ih _).mpr rfl)
  | .absent | .flag _ | .number _ | .word _ | .list _ =>
    simp [argumentText] at h
termination_by (sizeOf t, 0)
decreasing_by
  all_goals exact Prod.Lex.left _ _ (by simpa using hlt)

end

/-- `NameChain t ss` says that the references in the chain of `t` have the names `ss`. -/
inductive NameChain : Tree → List Text → Prop
  | nil : NameChain .absent []
  | link {k : Kind} {parts : List (Part × Tree)} {s : Text} {rest : List Text} :
      (Tree.node k parts).part .name = .word s →
        NameChain ((Tree.node k parts).part .inner) rest → NameChain (.node k parts) (s :: rest)

/-- The names that are found along a chain are those it has. -/
theorem nameChain_iff_of_chainNames (t : Tree) {ss : List Text}
    (h : t.chainNames = .ok (ss.map .word)) (ss' : List Text) : NameChain t ss' ↔ ss' = ss := by
  match t with
  | .absent =>
    rw [chainNames, Except.ok.injEq, eq_comm, List.map_eq_nil_iff] at h
    subst h
    constructor
    · rintro ⟨⟩
      rfl
    · rintro rfl
      exact .nil
  | .node k parts =>
    simp only [chainNames, bind_eq_ok_iff, pure_eq_ok_iff] at h
    obtain ⟨name, hname, links, hrest, hss⟩ := h
    obtain rfl := demand_eq_ok hname
    obtain ⟨s, rest, rfl, hs, rfl⟩ := List.map_eq_cons_iff.mp hss.symm
    have hlt := sizeOf_part_lt k parts .inner
    have ih := nameChain_iff_of_chainNames _ hrest
    constructor
    · intro hchain
      cases hchain with
      | link hname' hrest' =>
        rw [← hs, Tree.word.injEq] at hname'
        rw [hname', (ih _).mp hrest']
    · rintro rfl
      exact .link hs.symm ((ih rest).mpr rfl)
  | .flag _ | .number _ | .word _ | .list _ =>
    simp [chainNames] at h
termination_by sizeOf t
decreasing_by
  simpa using hlt

end TypeAtlas.Java.Tree
