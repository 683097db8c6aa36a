import TypeAtlas.Proofs.Java.Spelling

namespace TypeAtlas.Java.Tree

open Text

mutual

/-- Trees that are equal, once nothing and an empty list of type arguments or of dimensions are taken
for the same. -/
inductive Alike : Tree → Tree → Prop
  | same (t : Tree) : Alike t t
  | list {ts us : List Tree} : List.Forall₂ Alike ts us → Alike (.list ts) (.list us)
  | node {k : Kind} {parts others : List (Part × Tree)} :
      (∀ p ∈ k.parts, AlikeAt p ((Tree.node k parts).part p) ((Tree.node k others).part p)) →
        Alike (.node k parts) (.node k others)

/-- What can be taken for the same as the value of a part. -/
inductive AlikeAt : Part → Tree → Tree → Prop
  | alike {p : Part} {t u : Tree} : Alike t u → AlikeAt p t u
  | empty {p : Part} {t u : Tree} :
      p = .arguments ∨ p = .dimensions → t = .absent ∨ t = .list [] → u = .absent ∨ u = .list [] →
        AlikeAt p t u

end

theorem AlikeAt.of_eq {p : Part} {t u : Tree} (h : t = u) : AlikeAt p t u :=
  .alike (h ▸ .same t)

theorem HasDimensions.alikeAt {t u : Tree} {n : Nat} (ht : t.HasDimensions n)
    (hu : u.HasDimensions n) : AlikeAt .dimensions (t.part .dimensions) (u.part .dimensions) := by
  obtain ht | ⟨rfl, ht⟩ := ht
  · obtain hu | ⟨rfl, hu⟩ := hu
    · exact .of_eq (ht.trans hu.symm)
    · exact .empty (.inr rfl) (.inr ht) (.inl hu)
  · obtain hu | ⟨-, hu⟩ := hu
    · exact .empty (.inr rfl) (.inl ht) (.inr hu)
    · exact .of_eq (ht.trans hu.symm)

theorem alike_basicType {parts others : List (Part × Tree)} {name : Text} {n : Nat}
    (hname : (Tree.node .basicType parts).part .name = .word name)
    (hother : (Tree.node .basicType others).part .name = .word name)
    (hn : (Tree.node .basicType parts).HasDimensions n)
    (hm : (Tree.node .basicType others).HasDimensions n) :
    Alike (.node .basicType parts) (.node .basicType others) := by
  refine .node fun p hp => ?_
  obtain rfl | rfl : p = .name ∨ p = .dimensions := by simpa [Kind.parts] using hp
  · exact .of_eq (hname.trans hother.symm)
  · exact hn.alikeAt hm

theorem alike_referenceType {parts others : List (Part × Tree)} {name : Text} {n : Nat}
    (hname : (Tree.node .referenceType parts).part .name = .word name)
    (hother : (Tree.node .referenceType others).part .name = .word name)
    (harguments : AlikeAt .arguments ((Tree.node .referenceType parts).part .arguments)
      ((Tree.node .referenceType others).part .arguments))
    (hinner : Alike ((Tree.node .referenceType parts).part .inner)
      ((Tree.node .referenceType others).part .inner))
    (hn : (Tree.node .referenceType parts).HasDimensions n)
    (hm : (Tree.node .referenceType others).HasDimensions n) :
    Alike (.node .referenceType parts) (.node .referenceType others) := by
  refine .node fun p hp => ?_
  obtain rfl | rfl | rfl | rfl :
      p = .name ∨ p = .dimensions ∨ p = .arguments ∨ p = .inner := by simpa [Kind.parts] using hp
  · exact .of_eq (hname.trans hother.symm)
  · exact hn.alikeAt hm
  · exact harguments
  · exact .alike hinner

theorem alike_typeArgument {parts others : List (Part × Tree)}
    (hpattern : (Tree.node .typeArgument parts).part .pattern =
      (Tree.node .typeArgument others).part .pattern)
    (htype : Alike ((Tree.node .typeArgument parts).part .type)
      ((Tree.node .typeArgument others).part .type)) :
    Alike (.node .typeArgument parts) (.node .typeArgument others) := by
  refine .node fun p hp => ?_
  obtain rfl | rfl : p = .type ∨ p = .pattern := by simpa [Kind.parts] using hp
  · exact .alike htype
  · exact .of_eq hpattern

theorem bracketText_succ (n : Nat) : bracketText (n + 1) = "[]" ++ bracketText n := by
  rw [bracketText, List.replicate_succ, List.flatten_cons, ← bracketText]

theorem opensWith_bracketText (n : Nat) : OpensWith (ofString "[") (bracketText n) := by
  cases n with
  | zero => exact opensWith_nil _
  | succ n =>
    rw [bracketText_succ]
    exact opensWith_cons.mpr (by decide)

theorem bracketText_append_inj {m n : Nat} {r v : Text} (hr : OpensWith (ofString ",>") r)
    (hv : OpensWith (ofString ",>") v) (h : bracketText m ++ r = bracketText n ++ v) :
    m = n ∧ r = v := by
  induction m generalizing n with
  | zero =>
    cases n with
    | zero => exact ⟨rfl, h⟩
    | succ n =>
      rw [bracketText_succ] at h
      subst h
      exact absurd (opensWith_cons.mp hr) (by decide)
  | succ m ih =>
    cases n with
    | zero =>
      rw [bracketText_succ] at h
      subst h
      exact absurd (opensWith_cons.mp hv) (by decide)
    | succ n =>
      rw [bracketText_succ, bracketText_succ, List.append_assoc, List.append_assoc] at h
      obtain ⟨rfl, hrv⟩ := ih (List.append_cancel_left h)
      exact ⟨rfl, hrv⟩

theorem SpelledArguments.opensWith {t : Tree} {s : Text} (h : SpelledArguments t s) :
    OpensWith (ofString "<") s := by
  cases h with
  | none => exact opensWith_nil _
  | nil => exact opensWith_nil _
  | some _ => exact opensWith_cons.mpr (by decide)

theorem SpelledInner.opensWith {t : Tree} {s : Text} (h : SpelledInner t s) :
    OpensWith (ofString ".") s := by
  cases h with
  | none => exact opensWith_nil _
  | some _ _ => exact opensWith_cons.mpr (by decide)

/-- A type opens with a name, after which there is a mark, if anything. -/
theorem SpelledLink.exists_name {t : Tree} {s : Text} (h : SpelledLink t s) :
    ∃ name rest, s = name ++ rest ∧ IsLinkName name ∧ OpensWith (ofString "<.") rest := by
  cases h with
  | @link _ name arguments inner _ hname harguments hinner =>
    refine ⟨name, arguments ++ inner, rfl, hname, .append ?_ ?_⟩
    · exact harguments.opensWith.mono (by decide)
    · exact hinner.opensWith.mono (by decide)

theorem Spelled.exists_cons {t : Tree} {s : Text} (h : Spelled t s) :
    ∃ c rest, s = c :: rest ∧ c ∉ ofString ".<>,?[] " := by
  obtain ⟨name, rest, rfl, hname⟩ : ∃ name rest, s = name ++ rest ∧ IsUnmarked name := by
    cases h with
    | basic _ hscalar _ => exact ⟨_, _, rfl, isUnmarked_of_isScalar hscalar⟩
    | reference hlink _ =>
      obtain ⟨name, rest, rfl, hname, -⟩ := hlink.exists_name
      exact ⟨name, _, List.append_assoc .., hname.toIsUnmarked⟩
  obtain ⟨c, cs, rfl⟩ := List.exists_cons_of_ne_nil hname.nonempty
  exact ⟨c, _, rfl, hname.unmarked c List.mem_cons_self⟩

/-- Two words with marks behind them. -/
theorem append_inj_of_isUnmarked {s t u v : Text} (hs : IsUnmarked s) (ht : IsUnmarked t)
    (hu : OpensWith (ofString ".<>,?[] ") u) (hv : OpensWith (ofString ".<>,?[] ") v)
    (h : s ++ u = t ++ v) : s = t ∧ u = v :=
  append_inj_of_opensWith hs.unmarked ht.unmarked hu hv h

theorem not_scalar_eq_link {name s r v : Text} {t : Tree} {n : Nat}
    (hscalar : isScalar name = true) (hlink : SpelledLink t s)
    (hr : OpensWith (ofString ",>") r) (hv : OpensWith (ofString "[,>") v) :
    name ++ (bracketText n ++ r) ≠ s ++ v := by
  intro h
  obtain ⟨other, rest, rfl, hother, hrest⟩ := hlink.exists_name
  rw [List.append_assoc] at h
  have hbrackets : OpensWith (ofString ".<>,?[] ") (bracketText n ++ r) :=
    ((opensWith_bracketText n).mono (by decide)).append (hr.mono (by decide))
  have hbehind : OpensWith (ofString ".<>,?[] ") (rest ++ v) :=
    (hrest.mono (by decide)).append (hv.mono (by decide))
  obtain ⟨rfl, -⟩ := append_inj_of_isUnmarked (isUnmarked_of_isScalar hscalar)
    hother.toIsUnmarked hbrackets hbehind h
  rw [hother.unscalar] at hscalar
  cases hscalar

theorem isUnmarked_of_isBound {bound : Text} (h : bound = "extends" ∨ bound = "super") :
    IsUnmarked bound := by
  obtain rfl | rfl := h
  · exact ⟨by decide, by decide⟩
  · exact ⟨by decide, by decide⟩

theorem SpelledArguments.cases {t : Tree} {s : Text} (h : SpelledArguments t s) :
    ((t = .absent ∨ t = .list []) ∧ s = []) ∨
      ∃ arguments row, t = .list arguments ∧ s = "<" ++ row ∧ SpelledRow arguments row := by
  cases h with
  | none => exact .inl ⟨.inl rfl, rfl⟩
  | nil => exact .inl ⟨.inr rfl, rfl⟩
  | some hrow => exact .inr ⟨_, _, rfl, rfl, hrow⟩

theorem opensWith_end (t : Text) : OpensWith (ofString ",>") (">" ++ t) :=
  opensWith_cons.mpr (by decide)

theorem opensWith_comma (t : Text) : OpensWith (ofString ",>") (", " ++ t) :=
  opensWith_cons.mpr (by decide)

theorem opensWith_blank (t : Text) : OpensWith (ofString ".<>,?[] ") (" " ++ t) :=
  opensWith_cons.mpr (by decide)

theorem opensWith_bracketText_append {n : Nat} {r : Text} (hr : OpensWith (ofString ",>") r) :
    OpensWith (ofString "[,>") (bracketText n ++ r) :=
  ((opensWith_bracketText n).mono (by decide)).append (hr.mono (by decide))

/-- The text of a type is not that of a wildcard. -/
theorem Spelled.append_ne {t : Tree} {s : Text} (h : Spelled t s) (r v : Text) :
    s ++ r ≠ "?" ++ v := by
  obtain ⟨c, rest, rfl, hc⟩ := h.exists_cons
  intro heq
  obtain rfl : c = 63 := (List.cons.inj heq).1
  exact hc (by decide)

-- The recursion follows how the first of the two is spelled. What may stand behind a phrase is said in
-- each statement, since only that shows where the phrase ends.
mutual

/-- What is written as a type and what may stand behind it can be told apart, and the type can be told
from that. -/
theorem Spelled.unique : ∀ {a : Tree} {s : Text}, Spelled a s → ∀ {b : Tree} {u r v : Text},
    Spelled b u → OpensWith (ofString ",>") r → OpensWith (ofString ",>") v → s ++ r = u ++ v →
      Alike a b ∧ r = v
  | _, _, .basic hname hscalar hn => by
    intro hb hr hv h
    cases hb with
    | basic hname' hscalar' hm =>
      simp only [List.append_assoc] at h
      obtain ⟨rfl, hbehind⟩ := append_inj_of_isUnmarked (isUnmarked_of_isScalar hscalar)
        (isUnmarked_of_isScalar hscalar') ((opensWith_bracketText_append hr).mono (by decide))
        ((opensWith_bracketText_append hv).mono (by decide)) h
      obtain ⟨rfl, hrv⟩ := bracketText_append_inj hr hv hbehind
      exact ⟨alike_basicType hname hname' hn hm, hrv⟩
    | reference hlink _ =>
      simp only [List.append_assoc] at h
      exact absurd h (not_scalar_eq_link hscalar hlink hr (opensWith_bracketText_append hv))
  | _, _, .reference hlink hn => by
    intro hb hr hv h
    simp only [List.append_assoc] at h
    cases hb with
    | basic _ hscalar _ =>
      simp only [List.append_assoc] at h
      exact absurd h.symm (not_scalar_eq_link hscalar hlink hv (opensWith_bracketText_append hr))
    | reference hlink' hm =>
      simp only [List.append_assoc] at h
      obtain ⟨halike, hbehind⟩ := hlink.unique hlink' (opensWith_bracketText_append hr)
        (opensWith_bracketText_append hv) h
      obtain ⟨rfl, hrv⟩ := bracketText_append_inj hr hv hbehind
      exact ⟨halike _ hn hm, hrv⟩

theorem SpelledLink.unique : ∀ {a : Tree} {s : Text}, SpelledLink a s →
    ∀ {b : Tree} {u r v : Text}, SpelledLink b u → OpensWith (ofString "[,>") r →
      OpensWith (ofString "[,>") v → s ++ r = u ++ v →
        (∀ n, a.HasDimensions n → b.HasDimensions n → Alike a b) ∧ r = v
  | _, _, .link hname hlink harguments hinner => by
    intro hb hr hv h
    cases hb with
    | link hname' hlink' harguments' hinner' =>
      simp only [List.append_assoc] at h
      have hopens {t : Tree} {s x : Text} (hs : SpelledInner t s)
          (hx : OpensWith (ofString "[,>") x) : OpensWith (ofString ".[,>") (s ++ x) :=
        (hs.opensWith.mono (by decide)).append (hx.mono (by decide))
      have hmarked {t : Tree} {s x : Text} (hs : SpelledArguments t s)
          (hx : OpensWith (ofString ".[,>") x) : OpensWith (ofString ".<>,?[] ") (s ++ x) :=
        (hs.opensWith.mono (by decide)).append (hx.mono (by decide))
      obtain ⟨rfl, hbehind⟩ := append_inj_of_isUnmarked hlink.toIsUnmarked hlink'.toIsUnmarked
        (hmarked harguments (hopens hinner hr)) (hmarked harguments' (hopens hinner' hv)) h
      obtain ⟨hgiven, hinside⟩ :=
        harguments.unique harguments' (hopens hinner hr) (hopens hinner' hv) hbehind
      obtain ⟨halike, hrv⟩ := hinner.unique hinner' hr hv hinside
      exact ⟨fun n hn hm => alike_referenceType hname hname' hgiven halike hn hm, hrv⟩

theorem SpelledInner.unique : ∀ {a : Tree} {s : Text}, SpelledInner a s →
    ∀ {b : Tree} {u r v : Text}, SpelledInner b u → OpensWith (ofString "[,>") r →
      OpensWith (ofString "[,>") v → s ++ r = u ++ v → Alike a b ∧ r = v
  | _, _, .none => by
    intro hb hr hv h
    cases hb with
    | none => exact ⟨.same _, h⟩
    | some _ _ => exact absurd h (ne_cons_of_opensWith hr (by decide))
  | _, _, .some hlink hn => by
    intro hb hr hv h
    cases hb with
    | none => exact absurd h.symm (ne_cons_of_opensWith hv (by decide))
    | some hlink' hm =>
      simp only [List.append_assoc] at h
      obtain ⟨halike, hrv⟩ := hlink.unique hlink' hr hv (List.append_cancel_left h)
      exact ⟨halike 0 hn hm, hrv⟩

theorem SpelledArguments.unique : ∀ {a : Tree} {s : Text}, SpelledArguments a s →
    ∀ {b : Tree} {u r v : Text}, SpelledArguments b u → OpensWith (ofString ".[,>") r →
      OpensWith (ofString ".[,>") v → s ++ r = u ++ v → AlikeAt .arguments a b ∧ r = v
  | _, _, .none => by
    intro hb hr hv h
    obtain ⟨hempty, rfl⟩ | ⟨_, _, rfl, rfl, _⟩ := hb.cases
    · exact ⟨.empty (.inl rfl) (.inl rfl) hempty, h⟩
    · exact absurd h (ne_cons_of_opensWith hr (by decide))
  | _, _, .nil => by
    intro hb hr hv h
    obtain ⟨hempty, rfl⟩ | ⟨_, _, rfl, rfl, _⟩ := hb.cases
    · exact ⟨.empty (.inl rfl) (.inr rfl) hempty, h⟩
    · exact absurd h (ne_cons_of_opensWith hr (by decide))
  | _, _, .some hrow => by
    intro hb hr hv h
    obtain ⟨_, rfl⟩ | ⟨bs, row, rfl, rfl, hrow'⟩ := hb.cases
    · exact absurd h.symm (ne_cons_of_opensWith hv (by decide))
    · simp only [List.append_assoc] at h
      obtain ⟨halike, hrv⟩ := hrow.unique hrow' (List.append_cancel_left h)
      exact ⟨.alike (.list halike), hrv⟩

theorem SpelledRow.unique : ∀ {as : List Tree} {s : Text}, SpelledRow as s →
    ∀ {bs : List Tree} {u r v : Text}, SpelledRow bs u → s ++ r = u ++ v →
      List.Forall₂ Alike as bs ∧ r = v
  | _, _, .last ha => by
    intro hb h
    cases hb with
    | last hb =>
      simp only [List.append_assoc] at h
      obtain ⟨halike, hend⟩ := ha.unique hb (opensWith_end _) (opensWith_end _) h
      exact ⟨.cons halike .nil, List.append_cancel_left hend⟩
    | more hb hrow =>
      simp only [List.append_assoc] at h
      obtain ⟨-, hend⟩ := ha.unique hb (opensWith_end _) (opensWith_comma _) h
      exact absurd (List.cons.inj hend).1 (by decide)
  | _, _, .more ha hrow => by
    intro hb h
    cases hb with
    | last hb =>
      simp only [List.append_assoc] at h
      obtain ⟨-, hend⟩ := ha.unique hb (opensWith_comma _) (opensWith_end _) h
      exact absurd (List.cons.inj hend).1 (by decide)
    | more hb hrow' =>
      simp only [List.append_assoc] at h
      obtain ⟨halike, hrest⟩ := ha.unique hb (opensWith_comma _) (opensWith_comma _) h
      obtain ⟨hall, hrv⟩ := hrow.unique hrow' (List.append_cancel_left hrest)
      exact ⟨.cons halike hall, hrv⟩

theorem SpelledArgument.unique : ∀ {a : Tree} {s : Text}, SpelledArgument a s →
    ∀ {b : Tree} {u r v : Text}, SpelledArgument b u → OpensWith (ofString ",>") r →
      OpensWith (ofString ",>") v → s ++ r = u ++ v → Alike a b ∧ r = v
  | _, _, .wildcard hpattern htype => by
    intro hb hr hv h
    cases hb with
    | wildcard hpattern' htype' =>
      refine ⟨alike_typeArgument (hpattern.trans hpattern'.symm) ?_, List.append_cancel_left h⟩
      rw [htype, htype']
      exact .same _
    | plain _ htype' => exact absurd h.symm (htype'.append_ne _ _)
    | bounded _ _ _ =>
      exact absurd (List.cons.inj h).2 (ne_cons_of_opensWith hr (by decide))
  | _, _, .plain hpattern htype => by
    intro hb hr hv h
    cases hb with
    | wildcard _ _ => exact absurd h (htype.append_ne _ _)
    | plain hpattern' htype' =>
      obtain ⟨halike, hrv⟩ := htype.unique htype' hr hv h
      exact ⟨alike_typeArgument (hpattern.trans hpattern'.symm) halike, hrv⟩
    | bounded _ _ _ => exact absurd h (htype.append_ne _ _)
  | _, _, .bounded hpattern hbound htype => by
    intro hb hr hv h
    cases hb with
    | wildcard _ _ =>
      exact absurd (List.cons.inj h).2.symm (ne_cons_of_opensWith hv (by decide))
    | plain _ htype' => exact absurd h.symm (htype'.append_ne _ _)
    | bounded hpattern' hbound' htype' =>
      simp only [List.append_assoc] at h
      obtain ⟨rfl, hbehind⟩ := append_inj_of_isUnmarked (isUnmarked_of_isBound hbound)
        (isUnmarked_of_isBound hbound') (opensWith_blank _) (opensWith_blank _)
        (List.append_cancel_left h)
      obtain ⟨halike, hrv⟩ := htype.unique htype' hr hv (List.append_cancel_left hbehind)
      exact ⟨alike_typeArgument (hpattern.trans hpattern'.symm) halike, hrv⟩

end

theorem Alike.parts {k l : Kind} {parts others : List (Part × Tree)}
    (h : Alike (.node k parts) (.node l others)) :
    k = l ∧ ∀ p ∈ k.parts, AlikeAt p ((Tree.node k parts).part p) ((Tree.node l others).part p) := by
  cases h with
  | same _ => exact ⟨rfl, fun p _ => .of_eq rfl⟩
  | node hparts => exact ⟨rfl, hparts⟩

theorem Alike.items {ts us : List Tree} (h : Alike (.list ts) (.list us)) :
    List.Forall₂ Alike ts us := by
  cases h with
  | same _ => exact List.forall₂_same.mpr fun t _ => .same t
  | list hall => exact hall

/-- In all parts but two, nothing and an empty list are not the same. -/
theorem Alike.part {k : Kind} {parts others : List (Part × Tree)}
    (h : Alike (.node k parts) (.node k others)) {p : Part} (hp : p ∈ k.parts)
    (harguments : p ≠ .arguments) (hdimensions : p ≠ .dimensions) :
    Alike ((Tree.node k parts).part p) ((Tree.node k others).part p) := by
  cases h.parts.2 p hp with
  | alike h => exact h
  | empty hempty _ _ => exact absurd hempty (not_or.mpr ⟨harguments, hdimensions⟩)

theorem Alike.word_eq {s t : Text} (h : Alike (.word s) (.word t)) : s = t := by
  cases h with
  | same _ => rfl

theorem AlikeAt.count_eq {p : Part} {t u : Tree} (h : AlikeAt p t u) : t.count = u.count := by
  cases h with
  | alike h =>
    cases h with
    | same _ => rfl
    | list hall => rw [Tree.count, Tree.count, hall.length_eq]
    | node _ => rfl
  | empty _ ht hu => obtain rfl | rfl := ht <;> obtain rfl | rfl := hu <;> rfl

theorem HasDimensions.eq_of_alikeAt {t u : Tree} {m n : Nat} (ht : t.HasDimensions m)
    (hu : u.HasDimensions n) (h : AlikeAt .dimensions (t.part .dimensions) (u.part .dimensions)) :
    m = n :=
  Except.ok.inj (ht.count.symm.trans (h.count_eq.trans hu.count))

theorem AlikeAt.items {p : Part} {ts us : List Tree} (h : AlikeAt p (.list ts) (.list us)) :
    List.Forall₂ Alike ts us := by
  cases h with
  | alike h => exact h.items
  | empty _ hts hus =>
    obtain rfl : ts = [] := by simpa using hts
    obtain rfl : us = [] := by simpa using hus
    exact .nil

theorem AlikeAt.empty_iff {p : Part} {t u : Tree} (h : AlikeAt p t u) :
    (t = .absent ∨ t = .list []) ↔ (u = .absent ∨ u = .list []) := by
  cases h with
  | alike h =>
    cases h with
    | same _ => rfl
    | list hall => cases hall <;> simp
    | node _ => simp
  | empty _ ht hu => exact iff_of_true ht hu

theorem SpelledRow.ne_nil {ts : List Tree} {s : Text} (h : SpelledRow ts s) : ts ≠ [] := by
  cases h <;> simp

theorem SpelledRow.not_empty {ts : List Tree} {s : Text} (h : SpelledRow ts s) :
    ¬ (Tree.list ts = .absent ∨ Tree.list ts = .list []) := by
  simp [h.ne_nil]

theorem Alike.patterns {parts others : List (Part × Tree)} {v w : Tree}
    (h : Alike (.node .typeArgument parts) (.node .typeArgument others))
    (hv : (Tree.node .typeArgument parts).part .pattern = v)
    (hw : (Tree.node .typeArgument others).part .pattern = w) : Alike v w := by
  have hpattern := h.part (p := .pattern) (by decide) (by decide) (by decide)
  rwa [hv, hw] at hpattern

mutual

/-- Types that are alike are written alike. -/
theorem Spelled.text_eq : ∀ {a : Tree} {s : Text}, Spelled a s → ∀ {b : Tree} {u : Text},
    Spelled b u → Alike a b → s = u
  | _, _, .basic hname _ hn => by
    intro hb halike
    cases hb with
    | basic hname' _ hm =>
      have hsame := halike.part (p := .name) (by decide) (by decide) (by decide)
      rw [hname, hname'] at hsame
      rw [hsame.word_eq, hn.eq_of_alikeAt hm (halike.parts.2 .dimensions (by decide))]
    | reference hlink _ =>
      cases hlink with
      | link _ _ _ _ => cases halike.parts.1
  | _, _, .reference hlink hn => by
    intro hb halike
    cases hb with
    | basic _ _ _ =>
      cases hlink with
      | link _ _ _ _ => cases halike.parts.1
    | reference hlink' hm =>
      rw [hlink.text_eq hlink' halike]
      cases hlink with
      | link _ _ _ _ =>
        cases hlink' with
        | link _ _ _ _ =>
          rw [hn.eq_of_alikeAt hm (halike.parts.2 .dimensions (by decide))]

theorem SpelledLink.text_eq : ∀ {a : Tree} {s : Text}, SpelledLink a s →
    ∀ {b : Tree} {u : Text}, SpelledLink b u → Alike a b → s = u
  | _, _, .link hname _ harguments hinner => by
    intro hb halike
    cases hb with
    | link hname' _ harguments' hinner' =>
      have hsame := halike.part (p := .name) (by decide) (by decide) (by decide)
      have hgiven := halike.parts.2 .arguments (by decide)
      have hinside := halike.part (p := .inner) (by decide) (by decide) (by decide)
      rw [hname, hname'] at hsame
      rw [hsame.word_eq, harguments.text_eq harguments' hgiven, hinner.text_eq hinner' hinside]

theorem SpelledInner.text_eq : ∀ {a : Tree} {s : Text}, SpelledInner a s →
    ∀ {b : Tree} {u : Text}, SpelledInner b u → Alike a b → s = u
  | _, _, .none => by
    intro hb halike
    cases hb with
    | none => rfl
    | some hlink _ =>
      cases hlink with
      | link _ _ _ _ => cases halike
  | _, _, .some hlink _ => by
    intro hb halike
    cases hb with
    | none =>
      cases hlink with
      | link _ _ _ _ => cases halike
    | some hlink' _ => rw [hlink.text_eq hlink' halike]

theorem SpelledArguments.text_eq : ∀ {a : Tree} {s : Text}, SpelledArguments a s →
    ∀ {b : Tree} {u : Text}, SpelledArguments b u → AlikeAt .arguments a b → s = u
  | _, _, .none => by
    intro hb halike
    obtain ⟨-, rfl⟩ | ⟨_, _, rfl, rfl, hrow⟩ := hb.cases
    · rfl
    · exact absurd (halike.empty_iff.mp (.inl rfl)) hrow.not_empty
  | _, _, .nil => by
    intro hb halike
    obtain ⟨-, rfl⟩ | ⟨_, _, rfl, rfl, hrow⟩ := hb.cases
    · rfl
    · exact absurd (halike.empty_iff.mp (.inr rfl)) hrow.not_empty
  | _, _, .some hrow => by
    intro hb halike
    obtain ⟨hempty, rfl⟩ | ⟨_, _, rfl, rfl, hrow'⟩ := hb.cases
    · exact absurd (halike.empty_iff.mpr hempty) hrow.not_empty
    · rw [hrow.text_eq hrow' halike.items]

theorem SpelledRow.text_eq : ∀ {as : List Tree} {s : Text}, SpelledRow as s →
    ∀ {bs : List Tree} {u : Text}, SpelledRow bs u → List.Forall₂ Alike as bs → s = u
  | _, _, .last ha => by
    intro hb hall
    cases hall with
    | cons halike hrest =>
      cases hrest with
      | nil =>
        cases hb with
        | last hb => rw [ha.text_eq hb halike]
        | more _ hrow => exact absurd rfl hrow.ne_nil
  | _, _, .more ha hrow => by
    intro hb hall
    cases hall with
    | cons halike hrest =>
      cases hb with
      | last _ =>
        cases hrest
        exact absurd rfl hrow.ne_nil
      | more hb hrow' => rw [ha.text_eq hb halike, hrow.text_eq hrow' hrest]

theorem SpelledArgument.text_eq : ∀ {a : Tree} {s : Text}, SpelledArgument a s →
    ∀ {b : Tree} {u : Text}, SpelledArgument b u → Alike a b → s = u
  | _, _, .wildcard hpattern _ => by
    intro hb halike
    cases hb with
    | wildcard _ _ => rfl
    | plain hpattern' _ => cases halike.patterns hpattern hpattern'
    | bounded hpattern' hbound _ =>
      obtain rfl := (halike.patterns hpattern hpattern').word_eq
      exact absurd hbound (by decide)
  | _, _, .plain hpattern htype => by
    intro hb halike
    cases hb with
    | wildcard hpattern' _ => cases halike.patterns hpattern hpattern'
    | plain _ htype' =>
      exact htype.text_eq htype' (halike.part (by decide) (by decide) (by decide))
    | bounded hpattern' _ _ => cases halike.patterns hpattern hpattern'
  | _, _, .bounded hpattern hbound htype => by
    intro hb halike
    cases hb with
    | wildcard hpattern' _ =>
      obtain rfl := (halike.patterns hpattern hpattern').word_eq
      exact absurd hbound (by decide)
    | plain hpattern' _ => cases halike.patterns hpattern hpattern'
    | bounded hpattern' _ htype' =>
      obtain rfl := (halike.patterns hpattern hpattern').word_eq
      rw [htype.text_eq htype'
        (halike.part (by decide) (by decide) (by decide))]

end

/-- Every well-formed type has a text, and two have the same only if they are equal, once nothing and
an empty list of type arguments or of dimensions are taken for the same. -/
theorem typeText_eq_iff_alike {a b : Tree} (ha : a.WellFormed) (hb : b.WellFormed) :
    (∃ s, a.typeText = .ok s) ∧ (a.typeText = b.typeText ↔ Alike a b) := by
  obtain ⟨s, hs, hatext⟩ := ha.exists_spelled
  obtain ⟨u, hu, hbtext⟩ := hb.exists_spelled
  rw [hatext, hbtext, Except.ok.injEq]
  refine ⟨⟨s, rfl⟩, fun heq => ?_, hs.text_eq hu⟩
  exact (hs.unique hu (opensWith_nil _) (opensWith_nil _) (congrArg (· ++ []) heq)).1

/-- An array type with a wildcard, a bound and a link inside; the type that is the bound has these
dimensions and type arguments. -/
def entryTypes (dimensions arguments : Tree) : Tree :=
  let bound := Tree.node .referenceType
    [(.name, .word "List"), (.dimensions, dimensions), (.arguments, arguments)]
  .node .referenceType
    [(.name, .word "Map"), (.dimensions, .brackets 1),
      (.arguments, .list
        [.node .typeArgument [(.pattern, .word "?")],
          .node .typeArgument [(.type, bound), (.pattern, .word "extends")]]),
      (.inner, .node .referenceType [(.name, .word "Entry")])]

theorem wellFormed_entryTypes {dimensions arguments : Tree}
    (hdimensions : dimensions = .absent ∨ dimensions = .list [])
    (harguments : arguments = .absent ∨ arguments = .list []) :
    (entryTypes dimensions arguments).WellFormed := by
  have hname (name : Text) (h : name = "List" ∨ name = "Map" ∨ name = "Entry") :
      IsLinkName name := by
    obtain rfl | rfl | rfl := h <;> exact ⟨⟨by decide, by decide⟩, by decide⟩
  have hgiven : WellFormedArguments arguments := by
    obtain rfl | rfl := harguments
    · exact .none
    · exact .some (by simp)
  have hbound : WellFormed (.node .referenceType
      [(.name, .word "List"), (.dimensions, dimensions), (.arguments, arguments)]) := by
    refine .reference (n := 0) (.link rfl (hname _ (by decide)) hgiven .none) ?_
    exact hdimensions.symm.imp id fun h => ⟨rfl, h⟩
  have hentry : WellFormedLink (.node .referenceType [(.name, .word "Entry")]) :=
    .link rfl (hname _ (by decide)) .none .none
  have hwildcards : WellFormedArguments (.list
      [.node .typeArgument [(.pattern, .word "?")],
        .node .typeArgument [(.type, .node .referenceType
          [(.name, .word "List"), (.dimensions, dimensions), (.arguments, arguments)]),
            (.pattern, .word "extends")]]) := by
    refine .some fun a ha => ?_
    obtain rfl | rfl : a = _ ∨ a = _ := by simpa using ha
    · exact .wildcard rfl rfl
    · exact .bounded rfl (.inl rfl) hbound
  exact .reference (n := 1)
    (.link rfl (hname _ (by decide)) hwildcards (.some hentry (.inr ⟨rfl, rfl⟩))) (.inl rfl)

theorem typeText_eq_iff_alike_entryTypes :
    (entryTypes .absent (.list [])).WellFormed ∧ (entryTypes (.list []) .absent).WellFormed ∧
      ((entryTypes .absent (.list [])).typeText = (entryTypes (.list []) .absent).typeText ↔
        Alike (entryTypes .absent (.list [])) (entryTypes (.list []) .absent)) := by
  have hleft := wellFormed_entryTypes (.inl rfl) (.inr rfl)
  have hright := wellFormed_entryTypes (.inr rfl) (.inl rfl)
  exact ⟨hleft, hright, (typeText_eq_iff_alike hleft hright).2⟩

end TypeAtlas.Java.Tree
