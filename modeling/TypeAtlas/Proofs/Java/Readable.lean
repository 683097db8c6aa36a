import TypeAtlas.Java.Dependencies
import TypeAtlas.Java.Parser.Grammar
import TypeAtlas.Proofs.Java.Reach
import TypeAtlas.Proofs.Java.Rendering

namespace TypeAtlas.Java.Tree

mutual

/-- A basic type, or a reference type, of which each name has the property that `N` wants of the kind
of its token. Either can have brackets, though only those of the first link count. -/
inductive IsType (N : TokenKind → Text → Prop) : Tree → Prop
  | basic {name : Text} {n : Nat} :
      N .basicType name → IsType N (.node .basicType [(.name, .word name), (.dimensions, .brackets n)])
  | last {name : Text} {n : Nat} {arguments : Tree} :
      N .identifier name → AreArguments N arguments →
        IsType N (.node .referenceType
          [(.name, .word name), (.dimensions, .brackets n), (.arguments, arguments),
            (.inner, .absent)])
  | link {name : Text} {n : Nat} {arguments inner : Tree} :
      N .identifier name → AreArguments N arguments → IsType N inner →
        IsType N (.node .referenceType
          [(.name, .word name), (.dimensions, .brackets n), (.arguments, arguments),
            (.inner, inner)])

/-- The type arguments of a link, if it has any. -/
inductive AreArguments (N : TokenKind → Text → Prop) : Tree → Prop
  | none : AreArguments N .absent
  | some {arguments : List Tree} :
      (∀ a ∈ arguments, IsArgument N a) → AreArguments N (.list arguments)

/-- A question mark, a type, or a type as a bound. -/
inductive IsArgument (N : TokenKind → Text → Prop) : Tree → Prop
  | wildcard : IsArgument N (.node .typeArgument [(.pattern, .word "?")])
  | bounded {type : Tree} {bound : Text} :
      IsType N type → IsArgument N (.node .typeArgument [(.type, type), (.pattern, .word bound)])
  | plain {type : Tree} : IsType N type → IsArgument N (.node .typeArgument [(.type, type)])

end

variable {N : TokenKind → Text → Prop}

theorem linkTexts_absent : Tree.absent.linkTexts = .ok (([] : List Text).map .word) := by
  rw [linkTexts]
  rfl

theorem linkTexts_referenceType {name s : Text} {brackets arguments inner : Tree}
    {texts rest : List Text} (htexts : arguments.listed.mapM argumentText = .ok texts)
    (hlink : linkOf (.word name) arguments texts = .ok (.word s))
    (hrest : inner.linkTexts = .ok (rest.map .word)) :
    (Tree.node .referenceType
      [(.name, .word name), (.dimensions, brackets), (.arguments, arguments),
        (.inner, inner)]).linkTexts = .ok ((s :: rest).map .word) := by
  rw [linkTexts_node]
  change (do
    let texts ← arguments.listed.mapM argumentText
    let link ← linkOf (.word name) arguments texts
    return link :: (← inner.linkTexts)) = _
  rw [htexts, ok_bind, hlink, ok_bind, hrest]
  rfl

/-- A link whose type arguments can be written down can be written down before a chain that can. -/
theorem exists_linkTexts_referenceType {name : Text} {brackets arguments inner : Tree}
    {texts rest : List Text} (harguments : arguments = .absent ∨ ∃ as, arguments = .list as)
    (htexts : arguments.listed.mapM argumentText = .ok texts)
    (hrest : inner.linkTexts = .ok (rest.map .word)) :
    ∃ ss : List Text, (Tree.node .referenceType
      [(.name, .word name), (.dimensions, brackets), (.arguments, arguments),
        (.inner, inner)]).linkTexts = .ok (ss.map .word) := by
  have hlink : ∃ s, linkOf (.word name) arguments texts = .ok (.word s) := by
    unfold linkOf
    split
    · exact ⟨name, rfl⟩
    · rename_i hgiven
      split
      · rename_i hnil
        subst hnil
        obtain rfl | ⟨as, rfl⟩ := harguments
        · exact absurd rfl hgiven
        · cases mapM_eq_ok_iff.mp htexts
          exact absurd rfl hgiven
      · exact ⟨_, rfl⟩
  obtain ⟨s, hs⟩ := hlink
  exact ⟨s :: rest, linkTexts_referenceType htexts hs hrest⟩

theorem typeText_referenceType {k : Kind} {parts : List (Part × Tree)} {ss : List Text}
    {brackets : List Tree} (hk : k ≠ .basicType)
    (hlinks : (Tree.node k parts).linkTexts = .ok (ss.map .word))
    (hbrackets : (Tree.node k parts).demand .dimensions = .ok (.list brackets)) :
    (Tree.node k parts).typeText = .ok (Text.join "." ss ++ bracketText brackets.length) := by
  have hjoin : joinChain (ss.map .word) = .ok (Text.join "." ss) :=
    joinChain_eq_ok_iff.mpr ⟨ss, rfl, rfl⟩
  rw [typeText, if_neg hk, hlinks, ok_bind, hjoin, hbrackets]
  rfl

theorem AreArguments.listed {t : Tree} (h : AreArguments N t) :
    t = .absent ∨ ∃ as, t = .list as := by
  cases h with
  | none => exact .inl rfl
  | some _ => exact .inr ⟨_, rfl⟩

theorem IsType.exists_typeText_of_linkTexts {t : Tree} (h : IsType N t)
    (hlinks : ∃ ss : List Text, t.linkTexts = .ok (ss.map .word)) : ∃ s, t.typeText = .ok s := by
  obtain ⟨ss, hss⟩ := hlinks
  cases h with
  | basic _ =>
    rw [typeText]
    exact ⟨_, rfl⟩
  | last _ _ => exact ⟨_, typeText_referenceType (by simp) hss rfl⟩
  | link _ _ _ => exact ⟨_, typeText_referenceType (by simp) hss rfl⟩

theorem argumentText_of_type {parts : List (Part × Tree)} {pattern : Tree} {text : Text}
    (hpattern : (Tree.node .typeArgument parts).demand .pattern = .ok pattern)
    (htext : ((Tree.node .typeArgument parts).part .type).typeText = .ok text) :
    ∃ s, (Tree.node .typeArgument parts).argumentText = .ok s := by
  rw [argumentText, hpattern, ok_bind, htext]
  split
  · exact ⟨_, rfl⟩
  · cases pattern <;> exact ⟨_, rfl⟩

mutual

/-- The links of a type can be written down. -/
theorem IsType.exists_linkTexts : ∀ {t : Tree}, IsType N t →
    ∃ ss : List Text, t.linkTexts = .ok (ss.map .word)
  | _, @IsType.basic _ name _ _ => by
    refine ⟨[name], ?_⟩
    rw [linkTexts_node]
    change (Tree.absent.linkTexts >>= fun rest => pure (Tree.word name :: rest)) = _
    rw [linkTexts_absent]
    rfl
  | _, .last _ harguments => by
    obtain ⟨texts, htexts⟩ := harguments.exists_mapM_argumentText
    exact exists_linkTexts_referenceType harguments.listed htexts linkTexts_absent
  | _, .link _ harguments hinner => by
    obtain ⟨texts, htexts⟩ := harguments.exists_mapM_argumentText
    obtain ⟨rest, hrest⟩ := hinner.exists_linkTexts
    exact exists_linkTexts_referenceType harguments.listed htexts hrest

theorem AreArguments.exists_mapM_argumentText : ∀ {t : Tree}, AreArguments N t →
    ∃ ss : List Text, t.listed.mapM argumentText = .ok ss
  | _, .none => ⟨[], rfl⟩
  | _, .some harguments => exists_mapM_eq_ok fun a ha => (harguments a ha).exists_argumentText

theorem IsArgument.exists_argumentText : ∀ {t : Tree}, IsArgument N t →
    ∃ s, t.argumentText = .ok s
  | _, .wildcard => by
    rw [argumentText]
    exact ⟨_, rfl⟩
  | _, .bounded htype => by
    obtain ⟨text, htext⟩ := htype.exists_typeText_of_linkTexts htype.exists_linkTexts
    exact argumentText_of_type rfl htext
  | _, .plain htype => by
    obtain ⟨text, htext⟩ := htype.exists_typeText_of_linkTexts htype.exists_linkTexts
    exact argumentText_of_type rfl htext

end

theorem IsType.exists_typeText {t : Tree} (h : IsType N t) : ∃ s, t.typeText = .ok s :=
  h.exists_typeText_of_linkTexts h.exists_linkTexts

theorem chainNames_absent : Tree.absent.chainNames = .ok (([] : List Text).map .word) := by
  rw [chainNames]
  rfl

/-- A name comes before the chain of what is inside. -/
theorem chainNames_of_inner {k : Kind} {parts : List (Part × Tree)} {name : Text} {rest : List Text}
    (hname : (Tree.node k parts).demand .name = .ok (.word name))
    (hrest : ((Tree.node k parts).part .inner).chainNames = .ok (rest.map .word)) :
    (Tree.node k parts).chainNames = .ok ((name :: rest).map .word) := by
  rw [chainNames, hname, ok_bind, hrest]
  rfl

/-- A type has a chain of names. -/
theorem IsType.exists_chainNames {t : Tree} (h : IsType N t) :
    ∃ ss : List Text, t.chainNames = .ok (ss.map .word) := by
  cases h with
  | @basic name _ _ => exact ⟨[name], chainNames_of_inner rfl chainNames_absent⟩
  | @last name _ _ _ _ => exact ⟨[name], chainNames_of_inner rfl chainNames_absent⟩
  | @link name _ _ _ _ _ hinner =>
    obtain ⟨rest, hrest⟩ := hinner.exists_chainNames
    exact ⟨name :: rest, chainNames_of_inner rfl hrest⟩

theorem list_append_replicate (m n : Nat) :
    Tree.list (List.replicate m .absent ++ List.replicate n .absent) = .brackets (m + n) := by
  rw [brackets, List.replicate_append_replicate]

theorem IsType.addBrackets {t : Tree} (h : IsType N t) (n : Nat) : IsType N (t.addBrackets n) := by
  cases h with
  | basic hname =>
    simp only [Tree.addBrackets, List.map_cons, List.map_nil, brackets, list_append_replicate]
    exact .basic hname
  | last hname harguments =>
    simp only [Tree.addBrackets, List.map_cons, List.map_nil, brackets, list_append_replicate]
    exact .last hname harguments
  | link hname harguments hinner =>
    simp only [Tree.addBrackets, List.map_cons, List.map_nil, brackets, list_append_replicate]
    exact .link hname harguments hinner

/-- All that is extended or implemented is a type. -/
def AreTypes (N : TokenKind → Text → Prop) (t : Tree) : Prop :=
  ∃ types, t = .list types ∧ ∀ type ∈ types, IsType N type

/-- A path is a row of identifiers with the property `N`. -/
def IsPath (N : TokenKind → Text → Prop) (t : Tree) : Prop :=
  ∃ names : List String,
    names ≠ [] ∧ (∀ name ∈ names, N .identifier name) ∧ t = .word (".".intercalate names)

/-- What is read off a node is there: supertypes, the type and the names of variables, results and
parameters, the type of a resource, or the name of a package. -/
@[simp]
def HasReferences (N : TokenKind → Text → Prop) (t : Tree) : Kind → Prop
  | .classDeclaration | .interfaceDeclaration | .enumDeclaration =>
    (t.part .extended = .absent ∨ IsType N (t.part .extended) ∨ AreTypes N (t.part .extended)) ∧
      (t.part .implemented = .absent ∨ AreTypes N (t.part .implemented))
  | .field | .constant | .loopVariables | .localVariables =>
    IsType N (t.part .type) ∧
      ∃ ds, t.part .declarators = .list ds ∧ ∀ d ∈ ds, ∃ m, (d.part .dimensions).count = .ok m
  | .method =>
    (t.part .returnType = .absent ∨ IsType N (t.part .returnType)) ∧
      ∃ ps, t.part .parameters = .list ps ∧
        ∀ p ∈ ps, p.kind? = some .formalParameter ∧ IsType N (p.part .type)
  | .resource => IsType N (t.part .type)
  | .packageDeclaration => IsPath N (t.part .name)
  | _ => True

/-- In a readable tree each node has what is read off it. -/
def IsReadable (N : TokenKind → Text → Prop) (t : Tree) : Prop :=
  ∀ k parts, Tree.node k parts ∈ t.nodes → HasReferences N (.node k parts) k

@[simp] theorem isReadable_node_iff {k : Kind} {parts : List (Part × Tree)} :
    IsReadable N (.node k parts) ↔
      HasReferences N (.node k parts) k ∧ ∀ entry ∈ parts, IsReadable N entry.2 := by
  simp only [IsReadable, mem_nodes_node, mem_nodesOfParts]
  constructor
  · intro h
    refine ⟨h k parts (.inl rfl), ?_⟩
    rintro ⟨p, v⟩ hmem l others hin
    exact h l others (.inr ⟨p, v, hmem, hin⟩)
  · rintro ⟨hown, hparts⟩ l others (heq | ⟨p, v, hmem, hin⟩)
    · obtain ⟨rfl, rfl⟩ := Tree.node.inj heq
      exact hown
    · exact hparts (p, v) hmem l others hin

@[simp] theorem isReadable_list_iff {ts : List Tree} :
    IsReadable N (.list ts) ↔ ∀ t ∈ ts, IsReadable N t := by
  simp only [IsReadable, nodes, mem_nodesOfList]
  constructor
  · intro h t ht k parts hin
    exact h k parts ⟨t, ht, hin⟩
  · rintro h k parts ⟨t, ht, hin⟩
    exact h t ht k parts hin

@[simp] theorem isReadable_absent : IsReadable N .absent := by
  simp [IsReadable, nodes]

@[simp] theorem isReadable_flag (b : Bool) : IsReadable N (.flag b) := by
  simp [IsReadable, nodes]

@[simp] theorem isReadable_word (s : Text) : IsReadable N (.word s) := by
  simp [IsReadable, nodes]

@[simp] theorem isReadable_row {ts : List Tree} : IsReadable N (.row ts) ↔ ∀ t ∈ ts, IsReadable N t :=
  isReadable_list_iff

theorem isReadable_brackets (n : Nat) : IsReadable N (.brackets n) := by
  refine isReadable_list_iff.mpr fun t ht => ?_
  obtain rfl := List.eq_of_mem_replicate ht
  exact isReadable_absent

mutual

theorem IsType.isReadable : ∀ {t : Tree}, IsType N t → IsReadable N t
  | _, .basic _ => by
    simp [isReadable_node_iff, HasReferences, isReadable_word, isReadable_brackets]
  | _, .last _ harguments => by
    simp [isReadable_node_iff, HasReferences, isReadable_word, isReadable_brackets,
      isReadable_absent, harguments.isReadable]
  | _, .link _ harguments hinner => by
    simp [isReadable_node_iff, HasReferences, isReadable_word, isReadable_brackets,
      harguments.isReadable, hinner.isReadable]

theorem AreArguments.isReadable : ∀ {t : Tree}, AreArguments N t → IsReadable N t
  | _, .none => isReadable_absent
  | _, .some harguments => isReadable_list_iff.mpr fun a ha => (harguments a ha).isReadable

theorem IsArgument.isReadable : ∀ {t : Tree}, IsArgument N t → IsReadable N t
  | _, .wildcard => by
    simp [isReadable_node_iff, HasReferences, isReadable_word]
  | _, .bounded htype => by
    simp [isReadable_node_iff, HasReferences, isReadable_word, htype.isReadable]
  | _, .plain htype => by
    simp [isReadable_node_iff, HasReferences, htype.isReadable]

end

theorem IsType.exists_supertypeText {t : Tree} (h : IsType N t) :
    ∃ s, (Item.value t).supertypeText = .ok s := by
  obtain ⟨ss, hss⟩ := h.exists_chainNames
  refine ⟨Text.join "." ss, ?_⟩
  rw [Item.supertypeText, hss, ok_bind]
  exact joinChain_eq_ok_iff.mpr ⟨ss, rfl, rfl⟩

theorem items_list (ts : List Tree) : (Tree.list ts).items = .ok (ts.map .value) :=
  rfl

/-- The items of what is extended and implemented are types. -/
theorem exists_supertypes {t : Tree}
    (hextended : t.part .extended = .absent ∨ IsType N (t.part .extended) ∨
      AreTypes N (t.part .extended))
    (himplemented : t.part .implemented = .absent ∨ AreTypes N (t.part .implemented)) :
    ∃ items, t.supertypes = .ok items ∧ ∀ i ∈ items, ∃ type, i = .value type ∧ IsType N type := by
  have hall : ∀ types : List Tree, (∀ type ∈ types, IsType N type) →
      ∀ i ∈ types.map Item.value, ∃ type, i = .value type ∧ IsType N type := by
    intro types htypes i hi
    obtain ⟨type, htype, rfl⟩ := List.mem_map.mp hi
    exact ⟨type, rfl, htypes type htype⟩
  have hfirst : ∀ i ∈ t.extendedItems, ∃ type, i = .value type ∧ IsType N type := by
    obtain habsent | htype | ⟨types, heq, htypes⟩ := hextended
    · rw [extendedItems, habsent]
      nofun
    · intro i hi
      refine ⟨t.part .extended, ?_, htype⟩
      rw [extendedItems] at hi
      generalize t.part .extended = e at htype hi
      cases htype <;> exact List.mem_singleton.mp hi
    · rw [extendedItems, heq]
      exact hall types htypes
  have hsecond : ∃ items, t.implementedItems = .ok items ∧
      ∀ i ∈ items, ∃ type, i = .value type ∧ IsType N type := by
    obtain habsent | ⟨types, heq, htypes⟩ := himplemented
    · refine ⟨[], ?_, nofun⟩
      rw [implementedItems, habsent]
      rfl
    · rw [implementedItems, heq]
      split
      · exact ⟨_, rfl, hall types htypes⟩
      · exact ⟨[], rfl, nofun⟩
  obtain ⟨items, hitems, htypes⟩ := hsecond
  refine ⟨t.extendedItems ++ items, ?_, fun i hi => ?_⟩
  · rw [supertypes, hitems]
    rfl
  · obtain hi | hi := List.mem_append.mp hi
    · exact hfirst i hi
    · exact htypes i hi

theorem exists_supertypeNames {k : Kind} {parts : List (Part × Tree)}
    (h : HasReferences N (.node k parts) k) (hk : k.hasSupertypes = true) :
    ∃ names, (Tree.node k parts).supertypeNames = .ok names := by
  have hitems : ∃ items, (Tree.node k parts).supertypes = .ok items ∧
      ∀ i ∈ items, ∃ type, i = .value type ∧ IsType N type := by
    have hkind : k = .classDeclaration ∨ k = .interfaceDeclaration ∨ k = .enumDeclaration := by
      simpa [Kind.hasSupertypes, or_assoc] using hk
    obtain rfl | rfl | rfl := hkind
    · exact exists_supertypes h.1 h.2
    · exact exists_supertypes h.1 h.2
    · exact exists_supertypes h.1 h.2
  obtain ⟨items, hitems, htypes⟩ := hitems
  rw [supertypeNames, hitems, ok_bind]
  refine exists_mapM_eq_ok fun i hi => ?_
  obtain ⟨type, rfl, htype⟩ := htypes i hi
  exact htype.exists_supertypeText

theorem exists_declaredTypes {k : Kind} {parts : List (Part × Tree)}
    (h : HasReferences N (.node k parts) k) (hk : k.isField = true ∨ k.isVariables = true) :
    ∃ texts, (Tree.node k parts).declaredTypes = .ok texts := by
  have hkind : (k = .field ∨ k = .constant) ∨ k = .loopVariables ∨ k = .localVariables := by
    simpa [Kind.isField, Kind.isVariables] using hk
  have hdeclared : (Tree.node k parts).demand .declarators =
        .ok ((Tree.node k parts).part .declarators) ∧
      IsType N ((Tree.node k parts).part .type) ∧
        ∃ ds, (Tree.node k parts).part .declarators = .list ds ∧
          ∀ d ∈ ds, ∃ m, (d.part .dimensions).count = .ok m := by
    obtain (rfl | rfl) | rfl | rfl := hkind
    all_goals exact ⟨rfl, h⟩
  obtain ⟨hdemand, htype, ds, hds, hcounts⟩ := hdeclared
  obtain ⟨text, htext⟩ := htype.exists_typeText
  rw [declaredTypes, hdemand, ok_bind, hds, items_list, ok_bind]
  refine exists_mapM_eq_ok fun i hi => ?_
  obtain ⟨d, hd, rfl⟩ := List.mem_map.mp hi
  obtain ⟨m, hm⟩ := hcounts d hd
  refine ⟨text ++ bracketText m, ?_⟩
  rw [htext, ok_bind, Item.dimensionCount, hm]
  rfl

theorem exists_typeTextIfAny {t : Tree} (h : t = .absent ∨ IsType N t) :
    ∃ texts, t.typeTextIfAny = .ok texts := by
  obtain rfl | htype := h
  · exact ⟨[], rfl⟩
  · obtain ⟨text, htext⟩ := htype.exists_typeText
    rw [typeTextIfAny, htext]
    split
    · exact ⟨[], rfl⟩
    · exact ⟨[text], rfl⟩

theorem exists_signatureTypes {parts : List (Part × Tree)}
    (h : HasReferences N (.node .method parts) .method) :
    ∃ texts, (Tree.node .method parts).signatureTypes = .ok texts := by
  obtain ⟨hreturn, ps, hps, hparameters⟩ := h
  obtain ⟨returned, hreturned⟩ := exists_typeTextIfAny hreturn
  have hdemand : (Tree.node .method parts).demand .parameters = .ok (.list ps) := by
    rw [← hps]
    rfl
  obtain ⟨texts, htexts⟩ : ∃ texts, (ps.map Item.value).mapM
      (fun p => do (← p.demand .type).typeText) = .ok texts := by
    refine exists_mapM_eq_ok fun i hi => ?_
    obtain ⟨p, hp, rfl⟩ := List.mem_map.mp hi
    obtain ⟨hkind, htype⟩ := hparameters p hp
    obtain ⟨text, htext⟩ := htype.exists_typeText
    refine ⟨text, ?_⟩
    have hpart : (Item.value p).demand .type = .ok (p.part .type) := by
      rw [Item.demand, demand, hkind]
      rfl
    rw [hpart, ok_bind, htext]
  refine ⟨returned ++ texts, ?_⟩
  rw [signatureTypes, hreturned, ok_bind, parameterTypes, hdemand, ok_bind, items_list, ok_bind,
    htexts]
  rfl

/-- The texts at all nodes of some kinds are found if they are at each of them. -/
theorem exists_textsAt {unit : Tree} {p : Kind → Bool} {f : Tree → Except TreeFault (List Text)}
    (h : IsReadable N unit)
    (hf : ∀ k parts, HasReferences N (.node k parts) k → p k = true →
      ∃ texts, f (.node k parts) = .ok texts) : ∃ texts, unit.textsAt p f = .ok texts := by
  have hall : ∀ t ∈ unit.nodesOf p, ∃ texts, f t = .ok texts := by
    intro t ht
    obtain ⟨hmem, hkind⟩ := List.mem_filter.mp ht
    cases t with
    | node k parts => exact hf k parts (h k parts hmem) (by simpa [kind?] using hkind)
    | absent | flag | number | word | list => simp [kind?] at hkind
  obtain ⟨lists, hlists⟩ := exists_mapM_eq_ok hall
  exact ⟨lists.flatten, by rw [textsAt, hlists]; rfl⟩

/-- An import as a parse gives it: its path is a row of identifiers with the property `N`. -/
def IsImport (N : TokenKind → Text → Prop) (t : Tree) : Prop :=
  ∃ (names : List String) (isStatic isWildcard : Bool),
    names ≠ [] ∧ (∀ name ∈ names, N .identifier name) ∧
    t = .node .importDeclaration
      [(.path, .word (".".intercalate names)), (.isStatic, .flag isStatic),
        (.isWildcard, .flag isWildcard)]

theorem IsImport.isReadable {t : Tree} (h : IsImport N t) : IsReadable N t := by
  obtain ⟨names, isStatic, isWildcard, _, _, rfl⟩ := h
  simp

theorem IsImport.exists_importedPath {t : Tree} (h : IsImport N t) :
    ∃ path, (Item.value t).importedPath = .ok path ∧ ∀ p ∈ path, ∃ s, p = .word s := by
  obtain ⟨names, isStatic, isWildcard, _, _, rfl⟩ := h
  cases isWildcard with
  | true => exact ⟨none, rfl, nofun⟩
  | false =>
    refine ⟨some (.word (".".intercalate names)), rfl, fun p hp => ?_⟩
    exact ⟨_, (Option.some.inj hp).symm⟩

/-- A readable tree of a whole source text. -/
def IsUnit (N : TokenKind → Text → Prop) (t : Tree) : Prop :=
  ∃ package imports types, t = .node .compilationUnit
      [(.package, package), (.imports, .list imports), (.types, .list types)] ∧
    (package = .absent ∨ ∃ parts, package = .node .packageDeclaration parts) ∧
      (∀ i ∈ imports, IsImport N i) ∧ IsReadable N t

theorem IsUnit.exists_importedPaths {t : Tree} (h : IsUnit N t) :
    ∃ paths, t.importedPaths = .ok paths ∧ ∀ p ∈ paths, ∃ s, p = .word s := by
  obtain ⟨package, imports, types, rfl, _, himports, _⟩ := h
  have hall : ∀ i ∈ imports.map Item.value, ∃ path, i.importedPath = .ok path := by
    intro i hi
    obtain ⟨t, ht, rfl⟩ := List.mem_map.mp hi
    obtain ⟨path, hpath, _⟩ := (himports t ht).exists_importedPath
    exact ⟨path, hpath⟩
  obtain ⟨found, hfound⟩ := exists_mapM_eq_ok hall
  refine ⟨found.filterMap id, ?_, fun p hp => ?_⟩
  · have hdemand : (Tree.node .compilationUnit
        [(.package, package), (.imports, .list imports), (.types, .list types)]).demand .imports =
          .ok (.list imports) := rfl
    rw [importedPaths, hdemand, ok_bind, items_list, ok_bind, hfound]
    rfl
  · obtain ⟨path, hpath, rfl⟩ := List.mem_filterMap.mp hp
    obtain ⟨i, hi, hok⟩ := (mem_of_mapM_eq_ok hfound).mp hpath
    obtain ⟨t, ht, rfl⟩ := List.mem_map.mp hi
    obtain ⟨path', hpath', hwords⟩ := (himports t ht).exists_importedPath
    rw [hpath', Except.ok.injEq] at hok
    exact hwords p hok

/-- All that a source text depends on can be read off its tree. -/
theorem IsUnit.exists_dependencies {t : Tree} (h : IsUnit N t) (implicitPrefix : Text) :
    ∃ deps, t.dependencies implicitPrefix = .ok deps := by
  obtain ⟨paths, hpaths, hwords⟩ := h.exists_importedPaths
  obtain ⟨package, imports, types, rfl, hpackage, _, hreadable⟩ := h
  obtain ⟨inherited, hinherited⟩ := exists_textsAt (p := Kind.hasSupertypes) hreadable
    fun k parts hk => exists_supertypeNames hk
  obtain ⟨fields, hfields⟩ := exists_textsAt (p := Kind.isField) hreadable
    fun k parts hk hkind => exists_declaredTypes hk (.inl hkind)
  obtain ⟨signatures, hsignatures⟩ := exists_textsAt (p := (· = .method)) (f := signatureTypes)
    hreadable fun k parts hk hkind => by
      obtain rfl := of_decide_eq_true hkind
      exact exists_signatureTypes hk
  obtain ⟨locals, hlocals⟩ := exists_textsAt (p := Kind.isVariables) hreadable
    fun k parts hk hkind => exists_declaredTypes hk (.inr hkind)
  obtain ⟨resources, hresources⟩ := exists_textsAt (p := (· = .resource)) (f := resourceTypes)
    hreadable fun k parts hk hkind => by
      obtain rfl := of_decide_eq_true hkind
      exact exists_typeTextIfAny (.inr hk)
  have hstrangers : paths.filter (·.word?.isNone) = [] := by
    refine List.filter_eq_nil_iff.mpr fun p hp => ?_
    obtain ⟨s, rfl⟩ := hwords p hp
    simp [word?]
  obtain ⟨declared, hdeclared⟩ : ∃ declared, (Tree.node .compilationUnit
      [(.package, package), (.imports, .list imports), (.types, .list types)]).declaredPackage =
        .ok declared := by
    obtain rfl | ⟨parts, rfl⟩ := hpackage
    · exact ⟨_, rfl⟩
    · exact ⟨_, rfl⟩
  rw [dependencies, references, hpaths, ok_bind, hinherited, ok_bind, hfields, ok_bind,
    hsignatures, ok_bind, hlocals, ok_bind, hresources, ok_bind]
  simp only [hstrangers]
  rw [hdeclared]
  exact ⟨_, rfl⟩

end TypeAtlas.Java.Tree
