import TypeAtlas.Java.Dependencies
import TypeAtlas.Java.Parser.Grammar
import TypeAtlas.Proofs.Java.Readable
import TypeAtlas.Proofs.Text

namespace TypeAtlas.Java

/-- A word without any of the characters that stand for a type or between the names of one. -/
structure IsUnmarked (word : Text) : Prop where
  nonempty : word ≠ []
  unmarked : ∀ c ∈ word, c ∉ (".<>,?[] " : Text)

/-- A name that a link of a reference type can have. -/
structure IsLinkName (name : Text) : Prop extends IsUnmarked name where
  unscalar : isScalar name = false

theorem isUnmarked_of_isScalar {name : Text} (h : isScalar name = true) : IsUnmarked name := by
  have hall : ∀ scalar ∈ scalarNames,
      (scalar : Text) ≠ [] ∧ ∀ c ∈ (scalar : Text), c ∉ (".<>,?[] " : Text) := by decide
  obtain ⟨scalar, hscalar, heq⟩ := List.any_eq_true.mp h
  obtain rfl := of_decide_eq_true heq
  exact ⟨(hall scalar hscalar).1, (hall scalar hscalar).2⟩

namespace Tree

/-- A type has `n` dimensions; if it has none, they can be missing. -/
def HasDimensions (t : Tree) (n : Nat) : Prop :=
  t.part .dimensions = .brackets n ∨ n = 0 ∧ t.part .dimensions = .absent

mutual

/-- A scalar, or a chain of links, with any number of dimensions. -/
inductive WellFormed : Tree → Prop
  | basic {parts : List (Part × Tree)} {name : Text} {n : Nat} :
      (Tree.node .basicType parts).part .name = .word name → isScalar name = true →
        HasDimensions (.node .basicType parts) n → WellFormed (.node .basicType parts)
  | reference {t : Tree} {n : Nat} : WellFormedLink t → HasDimensions t n → WellFormed t

/-- A link with those inside it. -/
inductive WellFormedLink : Tree → Prop
  | link {parts : List (Part × Tree)} {name : Text} :
      (Tree.node .referenceType parts).part .name = .word name → IsLinkName name →
        WellFormedArguments ((Tree.node .referenceType parts).part .arguments) →
          WellFormedInner ((Tree.node .referenceType parts).part .inner) →
            WellFormedLink (.node .referenceType parts)

/-- The next link, if there is one; only the first has dimensions. -/
inductive WellFormedInner : Tree → Prop
  | none : WellFormedInner .absent
  | some {t : Tree} : WellFormedLink t → HasDimensions t 0 → WellFormedInner t

/-- The type arguments of a link; if it has none, they can be missing. -/
inductive WellFormedArguments : Tree → Prop
  | none : WellFormedArguments .absent
  | some {arguments : List Tree} :
      (∀ a ∈ arguments, WellFormedArgument a) → WellFormedArguments (.list arguments)

/-- A question mark, a type, or a bound. -/
inductive WellFormedArgument : Tree → Prop
  | wildcard {parts : List (Part × Tree)} :
      (Tree.node .typeArgument parts).part .pattern = .word "?" →
        (Tree.node .typeArgument parts).part .type = .absent →
          WellFormedArgument (.node .typeArgument parts)
  | plain {parts : List (Part × Tree)} :
      (Tree.node .typeArgument parts).part .pattern = .absent →
        WellFormed ((Tree.node .typeArgument parts).part .type) →
          WellFormedArgument (.node .typeArgument parts)
  | bounded {parts : List (Part × Tree)} {bound : Text} :
      (Tree.node .typeArgument parts).part .pattern = .word bound →
        bound = "extends" ∨ bound = "super" →
          WellFormed ((Tree.node .typeArgument parts).part .type) →
            WellFormedArgument (.node .typeArgument parts)

end

mutual

/-- `Spelled t s` says that `t` is a well-formed type, and `s` how it is written. -/
inductive Spelled : Tree → Text → Prop
  | basic {parts : List (Part × Tree)} {name : Text} {n : Nat} :
      (Tree.node .basicType parts).part .name = .word name → isScalar name = true →
        HasDimensions (.node .basicType parts) n →
          Spelled (.node .basicType parts) (name ++ bracketText n)
  | reference {t : Tree} {s : Text} {n : Nat} :
      SpelledLink t s → HasDimensions t n → Spelled t (s ++ bracketText n)

/-- The text of a link and of those inside it. -/
inductive SpelledLink : Tree → Text → Prop
  | link {parts : List (Part × Tree)} {name arguments inner : Text} :
      (Tree.node .referenceType parts).part .name = .word name → IsLinkName name →
        SpelledArguments ((Tree.node .referenceType parts).part .arguments) arguments →
          SpelledInner ((Tree.node .referenceType parts).part .inner) inner →
            SpelledLink (.node .referenceType parts) (name ++ (arguments ++ inner))

/-- The text that the next link adds. -/
inductive SpelledInner : Tree → Text → Prop
  | none : SpelledInner .absent []
  | some {t : Tree} {s : Text} : SpelledLink t s → HasDimensions t 0 → SpelledInner t ("." ++ s)

/-- The text that type arguments add. -/
inductive SpelledArguments : Tree → Text → Prop
  | none : SpelledArguments .absent []
  | nil : SpelledArguments (.list []) []
  | some {arguments : List Tree} {s : Text} :
      SpelledRow arguments s → SpelledArguments (.list arguments) ("<" ++ s)

/-- The text of type arguments to their end. -/
inductive SpelledRow : List Tree → Text → Prop
  | last {t : Tree} {s : Text} : SpelledArgument t s → SpelledRow [t] (s ++ ">")
  | more {t : Tree} {ts : List Tree} {s rest : Text} :
      SpelledArgument t s → SpelledRow ts rest → SpelledRow (t :: ts) (s ++ (", " ++ rest))

inductive SpelledArgument : Tree → Text → Prop
  | wildcard {parts : List (Part × Tree)} :
      (Tree.node .typeArgument parts).part .pattern = .word "?" →
        (Tree.node .typeArgument parts).part .type = .absent →
          SpelledArgument (.node .typeArgument parts) "?"
  | plain {parts : List (Part × Tree)} {s : Text} :
      (Tree.node .typeArgument parts).part .pattern = .absent →
        Spelled ((Tree.node .typeArgument parts).part .type) s →
          SpelledArgument (.node .typeArgument parts) s
  | bounded {parts : List (Part × Tree)} {bound s : Text} :
      (Tree.node .typeArgument parts).part .pattern = .word bound →
        bound = "extends" ∨ bound = "super" →
          Spelled ((Tree.node .typeArgument parts).part .type) s →
            SpelledArgument (.node .typeArgument parts) ("? " ++ (bound ++ (" " ++ s)))

end

theorem demand_of_mem {k : Kind} {p : Part} (h : p ∈ k.parts) (parts : List (Part × Tree)) :
    (Tree.node k parts).demand p = .ok ((Tree.node k parts).part p) := by
  have hhas : (Tree.node k parts).kind?.any (·.parts.contains p) = true := by
    simpa [kind?] using h
  rw [demand, hhas]
  rfl

theorem HasDimensions.count {t : Tree} {n : Nat} (h : t.HasDimensions n) :
    (t.part .dimensions).count = .ok n := by
  obtain h | ⟨rfl, h⟩ := h
  · rw [h, brackets, Tree.count, List.length_replicate]
  · rw [h]
    rfl

/-- The text of a row from those of its members. -/
theorem exists_spelledRow {ts : List Tree} (hne : ts ≠ [])
    (h : ∀ t ∈ ts, ∃ s, SpelledArgument t s ∧ t.argumentText = .ok s) :
    ∃ texts, ts.mapM argumentText = .ok texts ∧ texts ≠ [] ∧
      SpelledRow ts (Text.join ", " texts ++ ">") := by
  induction ts with
  | nil => exact absurd rfl hne
  | cons t ts ih =>
    obtain ⟨s, hs, htext⟩ := h t List.mem_cons_self
    cases ts with
    | nil =>
      refine ⟨[s], ?_, by simp, .last hs⟩
      rw [List.mapM_cons, htext]
      rfl
    | cons u us =>
      obtain ⟨texts, htexts, hne', hrow⟩ :=
        ih (by simp) fun v hv => h v (List.mem_cons_of_mem t hv)
      refine ⟨s :: texts, ?_, by simp, ?_⟩
      · rw [List.mapM_cons, htext, ok_bind, htexts]
        rfl
      · obtain ⟨text, texts, rfl⟩ := List.exists_cons_of_ne_nil hne'
        have hjoin : Text.join ", " (s :: text :: texts) ++ ">" =
            s ++ (", " ++ (Text.join ", " (text :: texts) ++ ">")) := by simp [Text.join]
        rw [hjoin]
        exact .more hs hrow

theorem typeText_of_basic {parts : List (Part × Tree)} {name : Text} {n : Nat}
    (hname : (Tree.node .basicType parts).part .name = .word name)
    (hn : (Tree.node .basicType parts).HasDimensions n) :
    (Tree.node .basicType parts).typeText = .ok (name ++ bracketText n) := by
  have hdemand := demand_of_mem (k := .basicType) (p := .dimensions) (by decide) parts
  rw [typeText, if_pos rfl, demand_of_mem (by decide), hname, ok_bind]
  simp only [hdemand, ok_bind, hn.count]
  rfl

theorem typeText_of_links {t : Tree} {texts : List Text} {n : Nat} (ht : WellFormedLink t)
    (htexts : t.linkTexts = .ok (texts.map .word)) (hn : t.HasDimensions n) :
    t.typeText = .ok (Text.join "." texts ++ bracketText n) := by
  cases ht with
  | @link parts _ _ _ _ _ =>
    have hdemand := demand_of_mem (k := .referenceType) (p := .dimensions) (by decide) parts
    have hjoin : joinChain (texts.map .word) = .ok (Text.join "." texts) :=
      joinChain_eq_ok_iff.mpr ⟨texts, rfl, rfl⟩
    rw [typeText, if_neg (by decide), htexts, ok_bind, hjoin]
    simp only [Except.map, hdemand, ok_bind, hn.count]
    rfl

theorem linkTexts_of_inner {parts : List (Part × Tree)} {name s : Text} {texts rest : List Text}
    (hname : (Tree.node .referenceType parts).part .name = .word name)
    (htexts : ((Tree.node .referenceType parts).part .arguments).listed.mapM argumentText =
      .ok texts)
    (hlink : linkOf (.word name) ((Tree.node .referenceType parts).part .arguments) texts =
      .ok (.word s))
    (hrest : ((Tree.node .referenceType parts).part .inner).linkTexts = .ok (rest.map .word)) :
    (Tree.node .referenceType parts).linkTexts = .ok ((s :: rest).map .word) := by
  rw [linkTexts_node, demand_of_mem (by decide), hname, ok_bind, htexts, ok_bind, hlink, ok_bind,
    hrest]
  rfl

mutual

/-- A well-formed type is written in one way, and the text that is found is that. -/
theorem WellFormed.exists_spelled : ∀ {t : Tree}, WellFormed t →
    ∃ s, Spelled t s ∧ t.typeText = .ok s
  | _, .basic hname hscalar hdimensions =>
    ⟨_, .basic hname hscalar hdimensions, typeText_of_basic hname hdimensions⟩
  | _, .reference hlink hdimensions => by
    obtain ⟨texts, -, hs, htexts⟩ := hlink.exists_spelled
    exact ⟨_, .reference hs hdimensions, typeText_of_links hlink htexts hdimensions⟩

theorem WellFormedLink.exists_spelled : ∀ {t : Tree}, WellFormedLink t →
    ∃ texts : List Text, texts ≠ [] ∧ SpelledLink t (Text.join "." texts) ∧
      t.linkTexts = .ok (texts.map .word)
  | _, @WellFormedLink.link _ name hname hlink harguments hinner => by
    obtain ⟨s, texts, hs, htexts, htext⟩ := harguments.exists_spelled
    obtain ⟨u, rest, hu, hrest, hjoin⟩ := hinner.exists_spelled
    refine ⟨(name ++ s) :: rest, by simp, ?_, linkTexts_of_inner hname htexts (htext name) hrest⟩
    rw [hjoin, List.append_assoc]
    exact .link hname hlink hs hu

theorem WellFormedInner.exists_spelled : ∀ {t : Tree}, WellFormedInner t →
    ∃ (s : Text) (texts : List Text), SpelledInner t s ∧ t.linkTexts = .ok (texts.map .word) ∧
      ∀ link, Text.join "." (link :: texts) = link ++ s
  | _, .none => by
    refine ⟨[], [], .none, linkTexts_absent, fun link => ?_⟩
    rw [Text.join, List.append_nil]
  | _, .some hlink hdimensions => by
    obtain ⟨texts, hne, hs, htexts⟩ := hlink.exists_spelled
    refine ⟨_, texts, .some hs hdimensions, htexts, fun link => ?_⟩
    obtain ⟨text, texts, rfl⟩ := List.exists_cons_of_ne_nil hne
    rw [Text.join, List.append_assoc]
    simp

theorem WellFormedArguments.exists_spelled : ∀ {t : Tree}, WellFormedArguments t →
    ∃ s texts, SpelledArguments t s ∧ t.listed.mapM argumentText = .ok texts ∧
      ∀ name, linkOf (.word name) t texts = .ok (.word (name ++ s))
  | _, .none => by
    refine ⟨[], [], .none, rfl, fun name => ?_⟩
    rw [List.append_nil]
    rfl
  | _, @WellFormedArguments.some arguments harguments => by
    by_cases hne : arguments = []
    · subst hne
      refine ⟨[], [], .nil, rfl, fun name => ?_⟩
      rw [List.append_nil]
      rfl
    · have hall : ∀ a ∈ arguments, ∃ s, SpelledArgument a s ∧ a.argumentText = .ok s :=
        fun a ha => (harguments a ha).exists_spelled
      obtain ⟨texts, htexts, hne', hrow⟩ := exists_spelledRow hne hall
      refine ⟨_, texts, .some hrow, htexts, fun name => ?_⟩
      have hgiven : (Tree.list arguments).isGiven ≠ false := by simp [isGiven, hne]
      rw [linkOf, if_neg hgiven, if_neg hne', withArguments]
      simp

theorem WellFormedArgument.exists_spelled : ∀ {t : Tree}, WellFormedArgument t →
    ∃ s, SpelledArgument t s ∧ t.argumentText = .ok s
  | _, .wildcard hpattern htype => by
    refine ⟨"?", .wildcard hpattern htype, ?_⟩
    rw [argumentText, demand_of_mem (by decide), hpattern, ok_bind]
    rfl
  | _, .plain hpattern htype => by
    obtain ⟨s, hs, htext⟩ := htype.exists_spelled
    refine ⟨s, .plain hpattern hs, ?_⟩
    rw [argumentText, demand_of_mem (by decide), hpattern, ok_bind, if_neg (by simp [word?]), htext]
    rfl
  | _, @WellFormedArgument.bounded _ bound hpattern hbound htype => by
    obtain ⟨s, hs, htext⟩ := htype.exists_spelled
    refine ⟨_, .bounded hpattern hbound hs, ?_⟩
    have hmark : ¬ (Tree.word bound).word? = some "?" := by
      intro hword
      have hbare : bound = "?" := Option.some.inj hword
      obtain rfl | rfl := hbound <;> exact absurd hbare (by decide)
    rw [argumentText, demand_of_mem (by decide), hpattern, ok_bind, if_neg hmark, htext, ok_bind]
    simp [hbound, pure, Except.pure]

end

end Tree

end TypeAtlas.Java
