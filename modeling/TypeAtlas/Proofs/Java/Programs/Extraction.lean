import TypeAtlas.Proofs.Java.Prefixes
import TypeAtlas.Proofs.Java.Programs.ProgramParsing
import TypeAtlas.Proofs.Java.Rejections

namespace TypeAtlas.Java

open TypeAtlas.Java.Tree

/-- The kinds of the nodes that types are read off. -/
def Kind.mentionsTypes (k : Kind) : Bool :=
  k.hasSupertypes || k.isField || k.isVariables || k = .method || k = .resource

section Nodes

variable {f : Kind → Bool}

theorem nodesOf_node (k : Kind) (parts : List (Part × Tree)) :
    (Tree.node k parts).nodesOf f =
      (if f k then [.node k parts] else []) ++ parts.flatMap fun entry => entry.2.nodesOf f := by
  have hparts : (nodesOfParts parts).filter (fun n => n.kind?.any f) =
      parts.flatMap fun entry => entry.2.nodesOf f := by
    induction parts with
    | nil => rfl
    | cons entry parts ih =>
      rw [nodesOfParts, List.filter_append, ih, List.flatMap_cons]
      rfl
  rw [nodesOf, nodes, List.filter_cons, hparts, kind?, Option.any_some]
  cases f k <;> rfl

theorem nodesOf_list (ts : List Tree) :
    (Tree.list ts).nodesOf f = ts.flatMap fun t => t.nodesOf f := by
  rw [nodesOf, nodes]
  induction ts with
  | nil => rfl
  | cons t ts ih =>
    rw [nodesOfList, List.filter_append, ih, List.flatMap_cons]
    rfl

@[simp] theorem nodesOf_word (s : Text) : (Tree.word s).nodesOf f = [] :=
  rfl

@[simp] theorem nodesOf_flag (b : Bool) : (Tree.flag b).nodesOf f = [] :=
  rfl

@[simp] theorem nodesOf_absent : Tree.absent.nodesOf f = [] :=
  rfl

/-- Brackets have no nodes. -/
theorem nodesOf_addBrackets {t : Tree} (h : t.kind?.any f = false) (n : Nat) :
    (t.addBrackets n).nodesOf f = t.nodesOf f := by
  cases t with
  | absent | flag | number | word | list => rfl
  | node k parts =>
    have hk : f k = false := h
    rw [addBrackets, nodesOf_node, nodesOf_node, hk, List.flatMap_map]
    congr 1
    refine List.flatMap_congr fun entry _ => ?_
    split
    · simp [nodesOf_list]
    · rfl

end Nodes

section Types

theorem mentionsTypes_referenceType : Kind.mentionsTypes .referenceType = false :=
  rfl

theorem mentionsTypes_typeArgument : Kind.mentionsTypes .typeArgument = false :=
  rfl

mutual

/-- In a type there is no node that types are read off. -/
theorem ReferenceType.nodesOf_tree : ∀ t : ReferenceType, t.tree.nodesOf Kind.mentionsTypes = []
  | .last name arguments => by
    have harguments := arguments.nodesOf_trees
    simp [ReferenceType.tree, nodesOf_node, nodesOf_list, mentionsTypes_referenceType, harguments]
  | .link name arguments inner => by
    have harguments := arguments.nodesOf_trees
    have hinner := inner.nodesOf_tree
    simp [ReferenceType.tree, nodesOf_node, nodesOf_list, mentionsTypes_referenceType, harguments,
      hinner]

theorem TypeArguments.nodesOf_trees : ∀ as : TypeArguments,
    (Tree.ofArguments as.trees).nodesOf Kind.mentionsTypes = []
  | .nil => rfl
  | .cons first rest => by
    have hfirst := first.nodesOf_tree
    have hrest : rest.trees.flatMap (·.nodesOf Kind.mentionsTypes) = [] := by
      have h := rest.nodesOf_trees
      cases hrest : rest.trees with
      | nil => rfl
      | cons t ts =>
        rw [hrest] at h
        exact (nodesOf_list _).symm.trans h
    change (Tree.list (first.tree :: rest.trees)).nodesOf Kind.mentionsTypes = []
    rw [nodesOf_list, List.flatMap_cons, hfirst, hrest]
    rfl

theorem TypeArgument.nodesOf_tree : ∀ a : TypeArgument, a.tree.nodesOf Kind.mentionsTypes = []
  | .wildcard => rfl
  | .exact type => by
    have htype := type.nodesOf_tree
    simp [TypeArgument.tree, nodesOf_node, mentionsTypes_typeArgument, htype]
  | .bounded bound type => by
    have htype := type.nodesOf_tree
    simp [TypeArgument.tree, nodesOf_node, mentionsTypes_typeArgument, htype]

theorem ObjectType.nodesOf_tree : ∀ t : ObjectType, t.tree.nodesOf Kind.mentionsTypes = []
  | .reference type brackets => by
    have htype := type.nodesOf_tree
    rw [ObjectType.tree, nodesOf_addBrackets (by cases type <;> rfl), htype]
  | .array element extra => by
    rw [ObjectType.tree, nodesOf_addBrackets rfl]
    rfl

end

theorem ValueType.nodesOf_tree (t : ValueType) : t.tree.nodesOf Kind.mentionsTypes = [] := by
  cases t with
  | scalar t => rfl
  | object t => exact t.nodesOf_tree

end Types

section Members

theorem nodesOf_map {α : Type} {f : α → Tree} {k : Kind → Bool} (as : List α)
    (h : ∀ a, (f a).nodesOf k = []) : (Tree.list (as.map f)).nodesOf k = [] := by
  rw [nodesOf_list, List.flatMap_eq_nil_iff]
  intro t ht
  obtain ⟨a, _, rfl⟩ := List.mem_map.mp ht
  exact h a

theorem Variable.nodesOf_field (v : Variable) : v.field.nodesOf Kind.mentionsTypes = [v.field] := by
  have hkind : Kind.mentionsTypes .field = true := rfl
  have hdeclarator : (Parser.declarator v.name.name 0 .absent).nodesOf Kind.mentionsTypes = [] :=
    rfl
  simp [field, nodesOf_node, nodesOf_list, hkind, v.type.nodesOf_tree, hdeclarator]

theorem Variable.nodesOf_parameter (v : Variable) :
    v.parameter.nodesOf Kind.mentionsTypes = [] := by
  have hkind : Kind.mentionsTypes .formalParameter = false := rfl
  simp [parameter, nodesOf_node, nodesOf_list, hkind, v.type.nodesOf_tree]

theorem Method.nodesOf_tree (d : Method) : d.tree.nodesOf Kind.mentionsTypes = [d.tree] := by
  have hkind : Kind.mentionsTypes .method = true := rfl
  have hparameters := nodesOf_map d.parameters Variable.nodesOf_parameter
  have hreturned : (d.returned.elim .absent ValueType.tree).nodesOf Kind.mentionsTypes = [] := by
    cases d.returned with
    | none => rfl
    | some t => exact t.nodesOf_tree
  rw [tree, nodesOf_node]
  simp [hkind, hparameters, hreturned, nodesOf_list]

theorem Member.nodesOf_tree (d : Member) : d.tree.nodesOf Kind.mentionsTypes = [d.tree] := by
  cases d with
  | field v => exact v.nodesOf_field
  | method d => exact d.nodesOf_tree

end Members

namespace Program

variable (p : Program)

/-- Types are read off the class and its members, and off no other node. -/
theorem nodesOf_tree :
    p.tree.nodesOf Kind.mentionsTypes = p.classTree :: p.members.map Member.tree := by
  have hunit : Kind.mentionsTypes .compilationUnit = false := rfl
  have hclass : Kind.mentionsTypes .classDeclaration = true := rfl
  have hpackage : p.packageTree.nodesOf Kind.mentionsTypes = [] := by
    unfold packageTree
    cases p.package <;> rfl
  have himports : (Tree.list (p.imports.map Import.tree)).nodesOf Kind.mentionsTypes = [] :=
    nodesOf_map _ fun _ => rfl
  have hbase : (p.base.elim .absent ReferenceType.tree).nodesOf Kind.mentionsTypes = [] := by
    cases p.base with
    | none => rfl
    | some t => exact t.nodesOf_tree
  have hinterfaces := nodesOf_map p.interfaces ReferenceType.nodesOf_tree
  have hmembers : (p.members.map Member.tree).flatMap (·.nodesOf Kind.mentionsTypes) =
      p.members.map Member.tree := by
    rw [List.flatMap_map]
    simp only [Member.nodesOf_tree]
    exact List.map_eq_flatMap.symm
  have hbody : p.classTree.nodesOf Kind.mentionsTypes =
      p.classTree :: p.members.map Member.tree := by
    rw [classTree, nodesOf_node, hclass, if_pos rfl]
    simp [hbase, hinterfaces, nodesOf_list, hmembers]
  rw [tree, nodesOf_node]
  simp [hunit, hpackage, himports, nodesOf_list, hbody]

theorem reachable_iff {k : Kind} {parts : List (Part × Tree)} (hk : k.mentionsTypes = true) :
    Reachable p.tree (.node k parts) ↔
      Tree.node k parts = p.classTree ∨ ∃ d ∈ p.members, d.tree = .node k parts := by
  have hmem : Tree.node k parts ∈ p.tree.nodesOf Kind.mentionsTypes ↔
      Reachable p.tree (.node k parts) := by
    rw [nodesOf, List.mem_filter, mem_nodes_iff]
    exact and_iff_left hk
  rw [← hmem, nodesOf_tree, List.mem_cons, List.mem_map]

/-- The names that a program uses: what it imports, extends or implements as it is named, and the
types of fields, results and parameters as they are written, unless they are scalars. -/
inductive Uses : Text → Prop
  | imported {i : Import} : i ∈ p.imports → i.isWildcard = false → Uses i.name.text
  | extended {t : ReferenceType} : p.base = some t → Uses t.dotted
  | implemented {t : ReferenceType} : t ∈ p.interfaces → Uses t.dotted
  | field {v : Variable} : .field v ∈ p.members → IsDeclared v.type.text → Uses v.type.text
  | returned {d : Method} {t : ValueType} :
      .method d ∈ p.members → d.returned = some t → IsDeclared t.text → Uses t.text
  | parameter {d : Method} {v : Variable} :
      .method d ∈ p.members → v ∈ d.parameters → IsDeclared v.type.text → Uses v.type.text

end Program

section Items

theorem hasItem_list_iff {ts : List Tree} {i : Item} :
    HasItem (.list ts) i ↔ ∃ t ∈ ts, i = .value t := by
  constructor
  · rintro ⟨is, his, hi⟩
    obtain rfl := Except.ok.inj his
    obtain ⟨t, ht, rfl⟩ := List.mem_map.mp hi
    exact ⟨t, ht, rfl⟩
  · rintro ⟨t, ht, rfl⟩
    exact ⟨_, rfl, List.mem_map_of_mem ht⟩

theorem ValueType.written_iff (t : ValueType) (s : Text) : Written t.tree s ↔ s = t.text :=
  written_iff_of_typeText _ t.typeText_tree s

theorem ReferenceType.exists_node (t : ReferenceType) :
    ∃ parts, t.tree = .node .referenceType parts := by
  cases t <;> exact ⟨_, rfl⟩

theorem ValueType.tree_ne_absent (t : ValueType) : t.tree ≠ .absent := by
  intro h
  cases t with
  | scalar t => cases h
  | object t =>
    cases t with
    | array element extra => cases h
    | reference t brackets =>
      obtain ⟨parts, hparts⟩ := t.exists_node
      rw [tree, ObjectType.tree, hparts] at h
      cases h

theorem ReferenceType.nameChain_iff (t : ReferenceType) (names : List Text) :
    NameChain t.tree names ↔ names = t.names :=
  nameChain_iff_of_chainNames _ t.chainNames_tree names

end Items

namespace Program

variable {p : Program} {n : Text}

theorem hasItem_map {α : Type} {f : α → Tree} {as : List α} {a : α} (h : a ∈ as) :
    HasItem (.list (as.map f)) (.value (f a)) :=
  hasItem_list_iff.mpr ⟨f a, List.mem_map_of_mem h, rfl⟩

theorem reachable_classTree : Reachable p.tree p.classTree :=
  (p.reachable_iff rfl).mpr (.inl rfl)

theorem Uses.mentions (h : p.Uses n) : Mentions p.tree n := by
  cases h with
  | imported hi hwildcard => exact .imported (hasItem_map hi) hwildcard rfl
  | @extended t hbase =>
    have hpart : p.classTree.part .extended = t.tree := by
      change p.base.elim .absent ReferenceType.tree = t.tree
      rw [hbase, Option.elim_some]
    have hsuper : Supertype p.classTree t.tree := by
      cases t <;> exact .extended hpart
    exact .inherited reachable_classTree (.inl rfl) hsuper ((t.nameChain_iff _).mpr rfl)
  | @implemented t ht =>
    exact .inherited reachable_classTree (.inl rfl) (.implemented (hasItem_map ht))
      ((t.nameChain_iff _).mpr rfl)
  | @field v hv hdeclared =>
    have hreach := (p.reachable_iff rfl).mpr (.inr ⟨.field v, hv, rfl⟩)
    have hdeclarator : HasItem (v.field.part .declarators)
        (.value (Parser.declarator v.name.name 0 .absent)) :=
      hasItem_list_iff.mpr ⟨_, List.mem_singleton_self _, rfl⟩
    have hmention := Mentions.declared (m := 0) hreach (.inl rfl) hdeclarator
      ((v.type.written_iff _).mpr rfl) rfl
    rw [bracketText, List.replicate_zero, List.flatten_nil, List.append_nil] at hmention
    exact hmention hdeclared
  | @returned d t hd ht hdeclared =>
    have hpart : d.tree.part .returnType = t.tree := by
      change d.returned.elim .absent ValueType.tree = t.tree
      rw [ht, Option.elim_some]
    have hsome : d.tree.part .returnType ≠ .absent := hpart ▸ t.tree_ne_absent
    have hreach := (p.reachable_iff rfl).mpr (.inr ⟨.method d, hd, rfl⟩)
    exact .returned hreach hsome (hpart ▸ (t.written_iff _).mpr rfl) hdeclared
  | @parameter d v hd hv hdeclared =>
    have hreach := (p.reachable_iff rfl).mpr (.inr ⟨.method d, hd, rfl⟩)
    exact .parameter hreach (hasItem_map hv) ((v.type.written_iff _).mpr rfl) hdeclared

theorem eq_of_reachable {k : Kind} {parts : List (Part × Tree)}
    (h : Reachable p.tree (.node k parts)) (hk : k.mentionsTypes = true) :
    Tree.node k parts = p.classTree ∨ (∃ v, .field v ∈ p.members ∧ Tree.node k parts = v.field) ∨
      ∃ d, .method d ∈ p.members ∧ Tree.node k parts = d.tree := by
  obtain hclass | ⟨d, hd, heq⟩ := (p.reachable_iff hk).mp h
  · exact .inl hclass
  · cases d with
    | field v => exact .inr (.inl ⟨v, hd, heq.symm⟩)
    | method d => exact .inr (.inr ⟨d, hd, heq.symm⟩)

theorem exists_of_reachable_method {parts : List (Part × Tree)}
    (h : Reachable p.tree (.node .method parts)) :
    ∃ d, .method d ∈ p.members ∧ Tree.node .method parts = d.tree := by
  obtain heq | ⟨v, _, heq⟩ | hd := eq_of_reachable h rfl
  · cases heq
  · cases heq
  · exact hd

theorem uses_of_supertype {ref : Tree} {names : List Text} (h : Supertype p.classTree ref)
    (hchain : NameChain ref names) : p.Uses (Text.join "." names) := by
  have hpart : p.classTree.part .extended = p.base.elim .absent ReferenceType.tree := rfl
  cases h with
  | extended hnode =>
    rw [hpart] at hnode
    cases hbase : p.base with
    | none =>
      rw [hbase] at hnode
      cases hnode
    | some t =>
      rw [hbase, Option.elim_some] at hnode
      rw [← hnode] at hchain
      obtain rfl := (t.nameChain_iff _).mp hchain
      exact .extended hbase
  | listed hlist =>
    rw [hpart] at hlist
    cases hbase : p.base with
    | none =>
      rw [hbase] at hlist
      cases hlist
    | some t =>
      obtain ⟨parts, hparts⟩ := t.exists_node
      rw [hbase, Option.elim_some, hparts] at hlist
      cases hlist
  | implemented hitem =>
    obtain ⟨_, ht, heq⟩ := hasItem_list_iff.mp hitem
    obtain rfl := Item.value.inj heq
    obtain ⟨t, hmem, rfl⟩ := List.mem_map.mp ht
    obtain rfl := (t.nameChain_iff _).mp hchain
    exact .implemented hmem

theorem uses_of_mentions (h : Mentions p.tree n) : p.Uses n := by
  -- Of the class and its members each kind is one that types are read off in one way only.
  cases h with
  | imported hi hwildcard hpath =>
    obtain ⟨_, ht, heq⟩ := hasItem_list_iff.mp hi
    obtain rfl := Item.value.inj heq
    obtain ⟨i, himport, rfl⟩ := List.mem_map.mp ht
    obtain rfl := Tree.word.inj hpath
    exact .imported himport hwildcard
  | @inherited k parts ref names hreach hk hsuper hchain =>
    obtain heq | ⟨v, _, heq⟩ | ⟨d, _, heq⟩ :=
      eq_of_reachable hreach (by obtain rfl | rfl | rfl := hk <;> rfl)
    · rw [heq] at hsuper
      exact uses_of_supertype hsuper hchain
    · obtain ⟨rfl, _⟩ := Tree.node.inj heq
      simp at hk
    · obtain ⟨rfl, _⟩ := Tree.node.inj heq
      simp at hk
  | @declared k parts d s m hreach hk hd hs hm hdeclared =>
    obtain heq | ⟨v, hv, heq⟩ | ⟨d, _, heq⟩ :=
      eq_of_reachable hreach (by obtain rfl | rfl | rfl | rfl := hk <;> rfl)
    · obtain ⟨rfl, _⟩ := Tree.node.inj heq
      simp at hk
    · rw [heq] at hd hs
      obtain ⟨_, hmem, rfl⟩ := hasItem_list_iff.mp hd
      obtain rfl := List.mem_singleton.mp hmem
      obtain rfl : 0 = m := Except.ok.inj hm
      obtain rfl := (v.type.written_iff _).mp hs
      rw [bracketText, List.replicate_zero, List.flatten_nil, List.append_nil] at hdeclared ⊢
      exact .field hv hdeclared
    · obtain ⟨rfl, _⟩ := Tree.node.inj heq
      simp at hk
  | returned hreach hsome hs hdeclared =>
    obtain ⟨d, hd, heq⟩ := exists_of_reachable_method hreach
    rw [heq] at hsome hs
    have hpart : d.tree.part .returnType = d.returned.elim .absent ValueType.tree := rfl
    rw [hpart] at hsome hs
    cases hreturned : d.returned with
    | none =>
      rw [hreturned] at hsome
      exact absurd rfl hsome
    | some t =>
      rw [hreturned] at hs
      obtain rfl := (t.written_iff _).mp hs
      exact .returned hd hreturned hdeclared
  | parameter hreach hparameter hs hdeclared =>
    obtain ⟨d, hd, heq⟩ := exists_of_reachable_method hreach
    rw [heq] at hparameter
    obtain ⟨_, hp, hitem⟩ := hasItem_list_iff.mp hparameter
    obtain rfl := Item.value.inj hitem
    obtain ⟨v, hv, rfl⟩ := List.mem_map.mp hp
    obtain rfl := (v.type.written_iff _).mp hs
    exact .parameter hd hv hdeclared
  | resource hreach hsome hs hdeclared =>
    obtain heq | ⟨v, _, heq⟩ | ⟨d, _, heq⟩ := eq_of_reachable hreach rfl <;> cases heq

/-- The source text of a program is parsed to its tree. -/
theorem parse_source (p : Program) : parse p.source = .ok p.tree := by
  obtain ⟨tokens, htokens, hlexemes⟩ := p.legible.tokenize
  rw [parse, source, htokens, mapError_ok, ok_bind, p.parseTokens_eq hlexemes, mapError_ok]

theorem declaredPackage_of_dependencies (p : Program) {implicitPrefix : Text} {deps : Dependencies}
    (h : p.tree.dependencies implicitPrefix = .ok deps) :
    deps.declaredPackage = p.package.map QualifiedName.text := by
  obtain ⟨found, hfound, heq⟩ := bind_eq_ok_iff.mp h
  obtain rfl := pure_eq_ok_iff.mp heq
  have hpackage := declaredPackage_of_references hfound
  have hclause : p.tree.part .package = p.packageTree := rfl
  rw [Tree.declaredPackage, hclause, packageTree] at hpackage
  cases hname : p.package with
  | none =>
    rw [hname] at hpackage
    obtain hpackage : Tree.absent = found.package := Except.ok.inj hpackage
    rw [← hpackage]
    rfl
  | some q =>
    rw [hname] at hpackage
    obtain hpackage : Tree.word q.text = found.package := Except.ok.inj hpackage
    rw [← hpackage]
    rfl

/-- Every program is read as it is written: its package, the names that it uses and no others, and
its types in the very words of the source text. -/
theorem extract_source (p : Program) (implicitPrefix : Text) :
    parse p.source = .ok p.tree ∧
    (∀ t : ValueType, t.tree.typeText = .ok t.text) ∧
    (∀ t : ReferenceType, t.tree.typeText = .ok t.text) ∧
    ∃ deps, extract implicitPrefix p.source = .ok deps ∧
      deps.declaredPackage = p.package.map QualifiedName.text ∧
      ∀ n, n ∈ deps.names ↔ (implicitPrefix = [] ∨ ¬ implicitPrefix <+: n) ∧ p.Uses n := by
  have hparse := p.parse_source
  refine ⟨hparse, ValueType.typeText_tree, ReferenceType.typeText_tree, ?_⟩
  obtain ⟨tokens, unit, _, hunit, hreadable⟩ | ⟨fault, hfault, _⟩ := parse_cases p.source
  · obtain rfl := Except.ok.inj (hunit.symm.trans hparse)
    obtain ⟨deps, hdeps⟩ := hreadable.exists_dependencies implicitPrefix
    refine ⟨deps, ?_, p.declaredPackage_of_dependencies hdeps, fun n => ?_⟩
    · rw [extract, hparse, ok_bind, hdeps, mapError_ok]
    · rw [mem_names_of_dependencies hdeps]
      exact and_congr_right fun _ => ⟨uses_of_mentions, Uses.mentions⟩
  · rw [hparse] at hfault
    cases hfault

/-- A class with a field, as it is laid out. -/
example :
    let name (w : String) (hw : isPlainWord w = true ∧ Token.kindOfWord w = .identifier) :
      Identifier := ⟨w, hw.1, hw.2⟩
    let list : ReferenceType := .last (name "List" (by decide))
      (.cons (.bounded .upper (.array ⟨"int", by decide⟩ 0)) .nil)
    (Program.mk none [] (name "A" (by decide)) (some list) []
      [.field ⟨.object (.reference list 1), name "x" (by decide)⟩]).source =
      ("class A extends List<? extends int[]> \x7b\nList<? extends int[]>[] x;\n\x7d\n" : Text) := by
  decide

end Program

end TypeAtlas.Java
