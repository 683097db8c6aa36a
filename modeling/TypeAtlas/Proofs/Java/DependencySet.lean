import Mathlib
import TypeAtlas.Proofs.Java.Mentions

namespace TypeAtlas.Java

namespace Tree

/-- Where texts are found at all nodes of some kinds, those are found that one of the nodes has. -/
theorem mem_textsAt_iff {unit : Tree} {p : Kind → Bool} {f : Tree → Except TreeFault (List Text)}
    {texts : List Text} (h : unit.textsAt p f = .ok texts) {n : Text} {Has : Tree → Prop}
    (hf : ∀ t found, f t = .ok found → (n ∈ found ↔ Has t)) :
    n ∈ texts ↔ ∃ k parts, Reachable unit (.node k parts) ∧ p k = true ∧ Has (.node k parts) := by
  obtain ⟨lists, hlists, rfl⟩ := map_eq_ok_iff.mp h
  simp only [List.mem_flatten, mem_of_mapM_eq_ok hlists, nodesOf, List.mem_filter, mem_nodes_iff]
  constructor
  · rintro ⟨found, ⟨t, ⟨hreach, hkind⟩, hfound⟩, hn⟩
    have hhas := (hf t found hfound).mp hn
    cases t with
    | node k parts => exact ⟨k, parts, hreach, by simpa [kind?] using hkind, hhas⟩
    | absent | flag | number | word | list => simp [kind?] at hkind
  · rintro ⟨k, parts, hreach, hkind, hhas⟩
    have hmem : Tree.node k parts ∈ unit.nodesOf p :=
      List.mem_filter.mpr ⟨mem_nodes_iff.mpr hreach, by simpa [kind?] using hkind⟩
    obtain ⟨found, _, hfound⟩ := exists_ok_of_mapM_eq_ok hlists hmem
    refine ⟨found, ⟨_, ⟨hreach, by simpa [kind?] using hkind⟩, hfound⟩, ?_⟩
    exact (hf _ found hfound).mpr hhas

/-- The names that are found are those of all categories, less the implied ones. -/
theorem mem_names_of_references {p : Text} {unit : Tree} {found : References}
    (h : unit.references p = .ok found) :
    ∃ paths inherited fields signatures locals resources,
      unit.importedPaths = .ok paths ∧
      unit.textsAt Kind.hasSupertypes supertypeNames = .ok inherited ∧
      unit.textsAt Kind.isField declaredTypes = .ok fields ∧
      unit.textsAt (· = .method) signatureTypes = .ok signatures ∧
      unit.textsAt Kind.isVariables declaredTypes = .ok locals ∧
      unit.textsAt (· = .resource) resourceTypes = .ok resources ∧
      ∀ n, n ∈ found.names ↔ isImplied p n = false ∧ (.word n ∈ paths ∨ n ∈ inherited ∨
        isScalar n = false ∧ (n ∈ fields ∨ n ∈ signatures ∨ n ∈ locals ∨ n ∈ resources)) := by
  simp only [references, bind_eq_ok_iff] at h
  obtain ⟨paths, hpaths, inherited, hinherited, fields, hfields, signatures, hsignatures,
    locals, hlocals, resources, hresources, h⟩ := h
  refine ⟨paths, inherited, fields, signatures, locals, resources, hpaths, hinherited, hfields,
    hsignatures, hlocals, hresources, fun n => ?_⟩
  have hword : n ∈ paths.filterMap word? ↔ .word n ∈ paths := by
    rw [List.mem_filterMap]
    constructor
    · rintro ⟨t, ht, hn⟩
      cases t with
      | word s =>
        obtain rfl := Option.some.inj hn
        exact ht
      | absent | flag | number | list | node => cases hn
    · exact fun hn => ⟨_, hn, rfl⟩
  split at h
  · cases h
  · obtain ⟨package, _, h⟩ := bind_eq_ok_iff.mp h
    obtain rfl := pure_eq_ok_iff.mp h
    simp only [NameSet.mem_ofList, List.mem_filter, List.mem_append, hword, Bool.not_eq_true']
    grind

/-- The names of a unit are exactly those it mentions, less the implied ones. -/
theorem mem_names_iff_mentions {p : Text} {unit : Tree} {deps : Dependencies}
    (h : unit.dependencies p = .ok deps) (n : Text) :
    n ∈ deps.names ↔ isImplied p n = false ∧ Mentions unit n := by
  obtain ⟨found, hfound, hdeps⟩ := bind_eq_ok_iff.mp h
  obtain rfl := pure_eq_ok_iff.mp hdeps
  obtain ⟨paths, inherited, fields, signatures, locals, resources, hpaths, hinherited, hfields,
    hsignatures, hlocals, hresources, hnames⟩ := mem_names_of_references hfound
  rw [hnames, isScalar_eq_false_iff, mem_importedPaths_iff hpaths,
    mem_textsAt_iff hinherited fun t found ht => mem_supertypeNames_iff ht,
    mem_textsAt_iff hfields fun t found ht => mem_declaredTypes_iff ht,
    mem_textsAt_iff hsignatures fun t found ht => mem_signatureTypes_iff ht,
    mem_textsAt_iff hlocals fun t found ht => mem_declaredTypes_iff ht,
    mem_textsAt_iff hresources fun t found ht => mem_typeTextIfAny_iff ht]
  refine and_congr_right fun _ => ?_
  simp only [decide_eq_true_eq]
  constructor
  · rintro (⟨i, hi, hgiven, hpath⟩ | ⟨k, parts, hreach, hk, ref, links, hsuper, hlinks, rfl⟩ |
      ⟨hdeclared, ⟨k, parts, hreach, hk, d, s, m, hd, hs, hm, rfl⟩ |
        ⟨k, parts, hreach, rfl, ⟨hsome, hs⟩ | ⟨parameter, hparameter, hs⟩⟩ |
        ⟨k, parts, hreach, hk, d, s, m, hd, hs, hm, rfl⟩ | ⟨k, parts, hreach, rfl, hsome, hs⟩⟩)
    · exact .imported hi hgiven hpath
    · exact .inherited hreach (by simpa [Kind.hasSupertypes, or_assoc] using hk) hsuper hlinks
    · have hkind : k = .field ∨ k = .constant := by simpa [Kind.isField] using hk
      exact .declared hreach (by tauto) hd hs hm hdeclared
    · exact .returned hreach hsome hs hdeclared
    · exact .parameter hreach hparameter hs hdeclared
    · have hkind : k = .loopVariables ∨ k = .localVariables := by
        simpa [Kind.isVariables] using hk
      exact .declared hreach (by tauto) hd hs hm hdeclared
    · exact .resource hreach hsome hs hdeclared
  · intro h
    cases h with
    | imported hi hgiven hpath => exact .inl ⟨_, hi, hgiven, hpath⟩
    | @inherited k parts ref names hreach hk hsuper hlinks =>
      have hkind : k.hasSupertypes = true := by simpa [Kind.hasSupertypes, or_assoc] using hk
      exact .inr (.inl ⟨_, _, hreach, hkind, _, _, hsuper, hlinks, rfl⟩)
    | declared hreach hk hd hs hm hdeclared =>
      refine .inr (.inr ⟨hdeclared, ?_⟩)
      obtain rfl | rfl | rfl | rfl := hk
      · exact .inl ⟨_, _, hreach, rfl, _, _, _, hd, hs, hm, rfl⟩
      · exact .inl ⟨_, _, hreach, rfl, _, _, _, hd, hs, hm, rfl⟩
      · exact .inr (.inr (.inl ⟨_, _, hreach, rfl, _, _, _, hd, hs, hm, rfl⟩))
      · exact .inr (.inr (.inl ⟨_, _, hreach, rfl, _, _, _, hd, hs, hm, rfl⟩))
    | returned hreach hsome hs hdeclared =>
      exact .inr (.inr ⟨hdeclared, .inr (.inl ⟨_, _, hreach, rfl, .inl ⟨hsome, hs⟩⟩)⟩)
    | parameter hreach hparameter hs hdeclared =>
      exact .inr (.inr ⟨hdeclared, .inr (.inl ⟨_, _, hreach, rfl, .inr ⟨_, hparameter, hs⟩⟩)⟩)
    | resource hreach hsome hs hdeclared =>
      exact .inr (.inr ⟨hdeclared, .inr (.inr (.inr ⟨_, _, hreach, rfl, hsome, hs⟩))⟩)

/-- The names of a unit are exactly those it mentions, less those with the implicit prefix. -/
theorem mem_names_of_dependencies {p : Text} {unit : Tree} {deps : Dependencies}
    (h : unit.dependencies p = .ok deps) (n : Text) :
    n ∈ deps.names ↔ (p = [] ∨ ¬ p <+: n) ∧ Mentions unit n := by
  rw [mem_names_iff_mentions h, isImplied_eq_false_iff]

/-- A unit with an import, and a class that extends another and has a field. -/
def smallUnit : Tree :=
  .node .compilationUnit
    [(.imports, .list [.node .importDeclaration [(.path, .word "a.B")]]),
      (.types, .list [.node .classDeclaration
        [(.body, .list [.node .field
            [(.type, .node .basicType [(.name, .word "int"), (.dimensions, .list [.absent])]),
              (.declarators, .list [.node .declarator [(.name, .word "xs")]])]]),
          (.extended, .node .referenceType [(.name, .word "Base")])]])]

theorem mem_names_of_smallUnit :
    smallUnit.dependencies "java.lang." =
      .ok { declaredPackage := none, names := .ofList ["a.B", "Base", "int[]"] } ∧
    ∀ n, n ∈ NameSet.ofList ["a.B", "Base", "int[]"] ↔
      (("java.lang." : Text) = [] ∨ ¬ ("java.lang." : Text) <+: n) ∧ Mentions smallUnit n := by
  have h : smallUnit.dependencies "java.lang." =
      .ok { declaredPackage := none, names := .ofList ["a.B", "Base", "int[]"] } := by cbv
  exact ⟨h, mem_names_of_dependencies h⟩

end Tree

end TypeAtlas.Java
