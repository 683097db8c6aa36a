import Mathlib
import TypeAtlas.Proofs.Java.DependencySet
import TypeAtlas.Proofs.Java.Rejections
import TypeAtlas.Proofs.Java.Words
import TypeAtlas.Proofs.Text

namespace TypeAtlas.Java

open TypeAtlas.Java.Parser TypeAtlas.Java.Tree

/-- A name is not empty, and an identifier is no scalar. -/
structure IsProper (N : TokenKind → Text → Prop) : Prop where
  ne_nil : ∀ k name, k = .identifier ∨ k = .basicType → N k name → name ≠ []
  isDeclared : ∀ name, N .identifier name → IsDeclared name

/-- The names of tokens whose words have been told apart are proper. -/
theorem isProper_isName {tokens : List Token} (h : ∀ t ∈ tokens, t.IsWord) :
    IsProper (IsName tokens) := by
  constructor
  · rintro k name hk ⟨t, ht, rfl, rfl⟩
    have hne := (h t ht hk).1
    simpa using hne
  · rintro name ⟨t, ht, hkind, rfl⟩ scalar hscalar heq
    have hword := (h t ht (.inl hkind)).2
    obtain rfl := Text.ofString_injective heq
    rw [hkind] at hword
    -- Each scalar is the name of a basic type or a keyword.
    have hkinds : ∀ s ∈ scalarNames, Token.kindOfWord s ≠ .identifier := by decide
    exact hkinds _ hscalar hword.symm

/-- A name with a point in it is no scalar. -/
theorem isDeclared_of_point {n : Text} (h : '.'.toNat ∈ n) : IsDeclared n := by
  rintro scalar hscalar rfl
  have hplain : ∀ s ∈ scalarNames, '.'.toNat ∉ Text.ofString s := by decide
  exact hplain scalar hscalar h

theorem isDeclared_join {name : Text} {names : List Text} (h : IsDeclared name) :
    IsDeclared (Text.join "." (name :: names)) := by
  cases names with
  | nil => exact h
  | cons other names => exact isDeclared_of_point (by simp [Text.join, Text.ofString])

/-- A path of identifiers is neither empty nor a scalar. -/
theorem isDeclared_path {N : TokenKind → Text → Prop} (hN : IsProper N) {names : List String}
    (hne : names ≠ []) (h : ∀ name ∈ names, N .identifier name) :
    (".".intercalate names : Text) ≠ [] ∧ IsDeclared (".".intercalate names : Text) := by
  cases names with
  | nil => exact absurd rfl hne
  | cons name names =>
    have hname := h name List.mem_cons_self
    cases names with
    | nil =>
      rw [String.intercalate_singleton]
      exact ⟨hN.ne_nil _ _ (.inl rfl) hname, hN.isDeclared _ hname⟩
    | cons other names =>
      have hpoint : '.'.toNat ∈ (".".intercalate (name :: other :: names) : Text) := by
        rw [String.intercalate_cons_cons]
        simp [Text.ofString]
      exact ⟨List.ne_nil_of_mem hpoint, isDeclared_of_point hpoint⟩

namespace Tree

variable {N : TokenKind → Text → Prop}

theorem Links.exists_cons {k : Kind} {parts : List (Part × Tree)} {name : Text} {links : List Text}
    (h : Links (.node k parts) links) (hname : (Tree.node k parts).part .name = .word name)
    (hne : name ≠ []) : ∃ link rest, links = link :: rest ∧ link ≠ [] := by
  cases h with
  | plain hname' _ _ =>
    obtain rfl := Tree.word.inj (hname.symm.trans hname')
    exact ⟨_, _, rfl, hne⟩
  | generic _ _ _ _ _ => exact ⟨_, _, rfl, by simp [Text.ofString]⟩

/-- A type whose names are proper is not written as nothing. -/
theorem IsType.ne_nil_of_written {t : Tree} (hN : IsProper N) (h : IsType N t) {s : Text}
    (hs : Written t s) : s ≠ [] := by
  have hreference {parts : List (Part × Tree)} {name : Text} (hname : N .identifier name)
      (hpart : (Tree.node .referenceType parts).part .name = .word name)
      (hs : Written (.node .referenceType parts) s) : s ≠ [] := by
    cases hs with
    | reference _ hlinks _ =>
      obtain ⟨link, rest, rfl, hlink⟩ := hlinks.exists_cons hpart (hN.ne_nil _ _ (.inl rfl) hname)
      simp [Text.join_ne_nil hlink]
  cases h with
  | basic hname =>
    cases hs with
    | basic hpart _ =>
      obtain rfl := Tree.word.inj hpart
      simp [hN.ne_nil _ _ (.inr rfl) hname]
    | reference hk _ _ => exact absurd rfl hk
  | last hname _ => exact hreference hname rfl hs
  | link hname _ _ => exact hreference hname rfl hs

/-- A declaration extends or implements the basic type with the name `n`. -/
def InheritsBasic (unit : Tree) (n : Text) : Prop :=
  ∃ k parts others, Reachable unit (.node k parts) ∧ k.hasSupertypes = true ∧
    Supertype (.node k parts) (.node .basicType others) ∧
    (Tree.node .basicType others).part .name = .word n

theorem IsType.ne_list {t : Tree} (h : IsType N t) (ts : List Tree) : t ≠ .list ts := by
  rintro rfl
  cases h

/-- What a declaration of a readable tree extends or implements is a type. -/
theorem IsType.of_supertype {k : Kind} {parts : List (Part × Tree)} {ref : Tree}
    (h : HasReferences N (.node k parts) k) (hk : k.hasSupertypes = true)
    (href : Supertype (.node k parts) ref) : IsType N ref := by
  have hkind : k = .classDeclaration ∨ k = .interfaceDeclaration ∨ k = .enumDeclaration := by
    simpa [Kind.hasSupertypes, or_assoc] using hk
  have hboth : ((Tree.node k parts).part .extended = .absent ∨
        IsType N ((Tree.node k parts).part .extended) ∨
        AreTypes N ((Tree.node k parts).part .extended)) ∧
      ((Tree.node k parts).part .implemented = .absent ∨
        AreTypes N ((Tree.node k parts).part .implemented)) := by
    obtain rfl | rfl | rfl := hkind <;> exact h
  obtain ⟨hextended, himplemented⟩ := hboth
  cases href with
  | extended hpart =>
    rw [hpart] at hextended
    obtain habsent | htype | ⟨types, hlist, _⟩ := hextended
    · cases habsent
    · exact htype
    · cases hlist
  | listed hpart hmem =>
    rw [hpart] at hextended
    obtain habsent | htype | ⟨types, hlist, htypes⟩ := hextended
    · cases habsent
    · exact absurd rfl (htype.ne_list _)
    · obtain rfl := Tree.list.inj hlist
      exact htypes ref hmem
  | implemented hitem =>
    obtain ⟨items, hitems, hmem⟩ := hitem
    obtain habsent | ⟨types, hlist, htypes⟩ := himplemented
    · rw [habsent] at hitems
      cases hitems
    · rw [hlist] at hitems
      obtain rfl := Except.ok.inj hitems
      obtain ⟨type, htype, heq⟩ := List.mem_map.mp hmem
      obtain rfl := Item.value.inj heq
      exact htypes _ htype

/-- The chain of a type starts with its own name, which is that of a basic type alone or of an
identifier. -/
theorem IsType.exists_of_nameChain {t : Tree} (h : IsType N t) {names : List Text}
    (hnames : NameChain t names) :
    (∃ name others, t = .node .basicType others ∧
      (Tree.node .basicType others).part .name = .word name ∧ N .basicType name ∧
        names = [name]) ∨
      ∃ name rest, N .identifier name ∧ names = name :: rest := by
  cases h with
  | basic hname =>
    cases hnames with
    | link hpart hrest =>
      obtain rfl := Tree.word.inj hpart
      cases hrest
      exact .inl ⟨_, _, rfl, rfl, hname, rfl⟩
  | last hname _ =>
    cases hnames with
    | link hpart _ =>
      obtain rfl := Tree.word.inj hpart
      exact .inr ⟨_, _, hname, rfl⟩
  | link hname _ _ =>
    cases hnames with
    | link hpart _ =>
      obtain rfl := Tree.word.inj hpart
      exact .inr ⟨_, _, hname, rfl⟩

/-- What is read off a node of a readable tree is there. -/
theorem IsReadable.hasReferences {unit : Tree} (h : IsReadable N unit) {k : Kind}
    {parts : List (Part × Tree)} (hreach : Reachable unit (.node k parts)) :
    HasReferences N (.node k parts) k :=
  h k parts (mem_nodes_iff.mpr hreach)

/-- A path that a unit imports is neither empty nor a scalar. -/
theorem IsUnit.isDeclared_of_import {unit i : Tree} (hN : IsProper N) (h : IsUnit N unit)
    (hi : HasItem (unit.part .imports) (.value i)) {n : Text} (hpath : i.part .path = .word n) :
    n ≠ [] ∧ IsDeclared n := by
  obtain ⟨package, imports, types, rfl, _, himports, _⟩ := h
  obtain ⟨items, hitems, hmem⟩ := hi
  obtain rfl := Except.ok.inj hitems
  obtain ⟨t, ht, heq⟩ := List.mem_map.mp hmem
  obtain rfl := Item.value.inj heq
  obtain ⟨names, isStatic, isWildcard, hne, hnames, rfl⟩ := himports t ht
  obtain rfl := Tree.word.inj hpath
  exact isDeclared_path hN hne hnames

/-- What a unit mentions is not empty, and is a scalar only where a declaration inherits from it. -/
theorem IsUnit.of_mentions {unit : Tree} (hN : IsProper N) (h : IsUnit N unit) {n : Text}
    (hn : Mentions unit n) : n ≠ [] ∧ (IsDeclared n ∨ InheritsBasic unit n) := by
  have hreadable : IsReadable N unit := by
    obtain ⟨_, _, _, _, _, _, hreadable⟩ := h
    exact hreadable
  cases hn with
  | imported hi _ hpath =>
    obtain ⟨hne, hdeclared⟩ := h.isDeclared_of_import hN hi hpath
    exact ⟨hne, .inl hdeclared⟩
  | @inherited k parts ref names hreach hk hsuper hnames =>
    have hkind : k.hasSupertypes = true := by simpa [Kind.hasSupertypes, or_assoc] using hk
    have htype := IsType.of_supertype (hreadable.hasReferences hreach) hkind hsuper
    obtain ⟨name, others, rfl, hpart, hname, rfl⟩ | ⟨name, rest, hname, rfl⟩ :=
      htype.exists_of_nameChain hnames
    · exact ⟨hN.ne_nil _ _ (.inr rfl) hname, .inr ⟨k, parts, others, hreach, hkind, hsuper, hpart⟩⟩
    · exact ⟨Text.join_ne_nil (hN.ne_nil _ _ (.inl rfl) hname),
        .inl (isDeclared_join (hN.isDeclared _ hname))⟩
  | @declared k parts d s m hreach hk _ hs _ hdeclared =>
    have hreferences := hreadable.hasReferences hreach
    have hne : s ≠ [] := by
      obtain rfl | rfl | rfl | rfl := hk
      all_goals exact hreferences.1.ne_nil_of_written hN hs
    exact ⟨by simp [hne], .inl hdeclared⟩
  | returned hreach hsome hs hdeclared =>
    obtain ⟨habsent | htype, _⟩ := hreadable.hasReferences hreach
    · exact absurd habsent hsome
    · exact ⟨htype.ne_nil_of_written hN hs, .inl hdeclared⟩
  | @parameter parts p s hreach hp hs hdeclared =>
    obtain ⟨_, ps, hps, hparameters⟩ := hreadable.hasReferences hreach
    obtain ⟨items, hitems, hmem⟩ := hp
    rw [hps] at hitems
    obtain rfl := Except.ok.inj hitems
    obtain ⟨t, ht, heq⟩ := List.mem_map.mp hmem
    obtain rfl := Item.value.inj heq
    exact ⟨(hparameters t ht).2.ne_nil_of_written hN hs, .inl hdeclared⟩
  | resource hreach _ hs hdeclared =>
    have htype : IsType N _ := hreadable.hasReferences hreach
    exact ⟨htype.ne_nil_of_written hN hs, .inl hdeclared⟩

/-- The basic types from which declarations inherit are mentioned. -/
theorem InheritsBasic.mentions {unit : Tree} (hunit : IsUnit N unit) {n : Text}
    (h : InheritsBasic unit n) : Mentions unit n := by
  obtain ⟨_, _, _, _, _, _, hreadable⟩ := hunit
  obtain ⟨k, parts, others, hreach, hk, hsuper, hpart⟩ := h
  have hkind : k = .classDeclaration ∨ k = .interfaceDeclaration ∨ k = .enumDeclaration := by
    simpa [Kind.hasSupertypes, or_assoc] using hk
  have htype := IsType.of_supertype (hreadable.hasReferences hreach) hk hsuper
  have hchain : NameChain (.node .basicType others) [n] := by
    cases htype with
    | basic _ => exact .link hpart .nil
  exact .inherited hreach hkind hsuper hchain

end Tree

/-- Among the names there is no scalar, none with the implicit prefix and no empty one. -/
structure RespectsExclusions (implicitPrefix : Text) (names : NameSet) : Prop where
  isDeclared : ∀ n ∈ names, IsDeclared n
  isExplicit : ∀ n ∈ names, implicitPrefix = [] ∨ ¬ implicitPrefix <+: n
  isNamed : ∀ n ∈ names, n ≠ []

/-- No name that is extracted is empty or has the implicit prefix, and the scalars among them are the
basic types from which a declaration inherits. -/
theorem scalars_of_extract {implicitPrefix source : Text} {deps : Dependencies}
    (h : extract implicitPrefix source = .ok deps) :
    ∃ unit, parse source = .ok unit ∧
      (∀ n ∈ deps.names, n ≠ [] ∧ (implicitPrefix = [] ∨ ¬ implicitPrefix <+: n)) ∧
      ∀ n, ¬ IsDeclared n → (n ∈ deps.names ↔
        (implicitPrefix = [] ∨ ¬ implicitPrefix <+: n) ∧ InheritsBasic unit n) := by
  obtain ⟨tokens, unit, htokens, hunit, hparsed⟩ | ⟨fault, hfault, _⟩ := parse_cases source
  · have hN := isProper_isName (isWord_of_tokenize htokens)
    rw [extract, hunit, ok_bind] at h
    have hdeps : unit.dependencies implicitPrefix = .ok deps := by
      cases hdeps : unit.dependencies implicitPrefix with
      | ok found =>
        rw [hdeps, mapError_ok] at h
        rw [Except.ok.inj h]
      | error fault =>
        rw [hdeps, mapError_error] at h
        cases h
    refine ⟨unit, hunit, fun n hn => ?_, fun n hscalar => ?_⟩
    · obtain ⟨hexplicit, hmentions⟩ := (mem_names_iff_mentions hdeps n).mp hn
      exact ⟨(hparsed.of_mentions hN hmentions).1, isImplied_eq_false_iff.mp hexplicit⟩
    · rw [mem_names_iff_mentions hdeps, isImplied_eq_false_iff]
      refine and_congr_right fun _ => ⟨fun hmentions => ?_, fun hinherits => ?_⟩
      · exact (hparsed.of_mentions hN hmentions).2.resolve_left hscalar
      · exact hinherits.mentions hparsed
  · rw [extract, hfault] at h
    cases h

theorem extract_basicBase :
    extract "java.lang." "class A extends int {}" =
      .ok { declaredPackage := none, names := .ofList ["int"] } := by
  cbv

theorem scalars_of_basicBase :
    extract "java.lang." "class A extends int {}" =
      .ok { declaredPackage := none, names := .ofList ["int"] } ∧
    ∃ unit, parse "class A extends int {}" = .ok unit ∧
      (∀ n ∈ NameSet.ofList ["int"],
        n ≠ [] ∧ (("java.lang." : Text) = [] ∨ ¬ ("java.lang." : Text) <+: n)) ∧
      ∀ n, ¬ IsDeclared n → (n ∈ NameSet.ofList ["int"] ↔
        (("java.lang." : Text) = [] ∨ ¬ ("java.lang." : Text) <+: n) ∧ InheritsBasic unit n) :=
  ⟨extract_basicBase, scalars_of_extract extract_basicBase⟩

/-- The exclusions are not respected where a class extends a basic type. -/
theorem not_respectsExclusions_basicBase :
    ¬ ∀ deps, extract "java.lang." "class A extends int {}" = .ok deps →
      RespectsExclusions "java.lang." deps.names := by
  intro h
  have hnames := h _ extract_basicBase
  exact hnames.isDeclared "int" (by simp) "int" (by decide) rfl

end TypeAtlas.Java
