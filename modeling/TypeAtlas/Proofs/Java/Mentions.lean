import TypeAtlas.Java.Dependencies
import TypeAtlas.Proofs.Java.Reach
import TypeAtlas.Proofs.Java.Rendering

namespace TypeAtlas.Java

namespace Tree

/-- `HasItem v i` says that `i` is met in going through `v` item by item. -/
def HasItem (v : Tree) (i : Item) : Prop :=
  ∃ is, v.items = .ok is ∧ i ∈ is

/-- What a declaration refers to as extended, alone or in a list, or as implemented. -/
inductive Supertype (decl : Tree) : Tree → Prop
  | extended {k : Kind} {parts : List (Part × Tree)} :
      decl.part .extended = .node k parts → Supertype decl (.node k parts)
  | listed {refs : List Tree} {ref : Tree} :
      decl.part .extended = .list refs → ref ∈ refs → Supertype decl ref
  | implemented {ref : Tree} :
      HasItem (decl.part .implemented) (.value ref) → Supertype decl ref

/-- A name that is no name of a scalar. -/
def IsDeclared (n : Text) : Prop :=
  ∀ scalar ∈ scalarNames, n ≠ scalar

/-- The names of types that a unit mentions: those it imports, extends or implements, and those of
its fields and variables, results and parameters, and resources unless they are scalars. -/
inductive Mentions (unit : Tree) : Text → Prop
  | imported {i : Tree} {n : Text} :
      HasItem (unit.part .imports) (.value i) → (i.part .isWildcard).isGiven = false →
        i.part .path = .word n → Mentions unit n
  | inherited {k : Kind} {parts : List (Part × Tree)} {ref : Tree} {names : List Text} :
      Reachable unit (.node k parts) →
        k = .classDeclaration ∨ k = .interfaceDeclaration ∨ k = .enumDeclaration →
          Supertype (.node k parts) ref → NameChain ref names → Mentions unit (Text.join "." names)
  | declared {k : Kind} {parts : List (Part × Tree)} {d : Item} {s : Text} {m : Nat} :
      Reachable unit (.node k parts) →
        k = .field ∨ k = .constant ∨ k = .loopVariables ∨ k = .localVariables →
          HasItem ((Tree.node k parts).part .declarators) d →
            Written ((Tree.node k parts).part .type) s → d.dimensionCount = .ok m →
              IsDeclared (s ++ bracketText m) → Mentions unit (s ++ bracketText m)
  | returned {parts : List (Part × Tree)} {s : Text} :
      Reachable unit (.node .method parts) → (Tree.node .method parts).part .returnType ≠ .absent →
        Written ((Tree.node .method parts).part .returnType) s → IsDeclared s → Mentions unit s
  | parameter {parts : List (Part × Tree)} {p : Tree} {s : Text} :
      Reachable unit (.node .method parts) →
        HasItem ((Tree.node .method parts).part .parameters) (.value p) →
          Written (p.part .type) s → IsDeclared s → Mentions unit s
  | resource {parts : List (Part × Tree)} {s : Text} :
      Reachable unit (.node .resource parts) → (Tree.node .resource parts).part .type ≠ .absent →
        Written ((Tree.node .resource parts).part .type) s → IsDeclared s → Mentions unit s

theorem isScalar_eq_false_iff {n : Text} : isScalar n = false ↔ IsDeclared n := by
  rw [isScalar, List.any_eq_false]
  simp only [decide_eq_true_eq]
  exact ⟨fun h scalar hmem heq => h scalar hmem heq.symm,
    fun h scalar hmem heq => h scalar hmem heq.symm⟩

theorem isImplied_eq_false_iff {p n : Text} : isImplied p n = false ↔ p = [] ∨ ¬ p <+: n := by
  cases p with
  | nil => simp [isImplied]
  | cons c p => simp [isImplied, ← List.isPrefixOf_iff_prefix]

theorem Item.demand_eq_ok {i : Item} {p : Part} {v : Tree} (h : i.demand p = .ok v) :
    ∃ t, i = .value t ∧ v = t.part p := by
  cases i with
  | value t => exact ⟨t, rfl, Tree.demand_eq_ok h⟩
  | visit => cases h

/-- Of an import that can be read the path is found, unless it imports all there is. -/
theorem Item.importedPath_eq_ok {i : Item} {found : Option Tree} (h : i.importedPath = .ok found) :
    ∃ t, i = .value t ∧
      (((t.part .isWildcard).isGiven = true ∧ found = none) ∨
        ((t.part .isWildcard).isGiven = false ∧ found = some (t.part .path))) := by
  obtain ⟨mark, hmark, h⟩ := bind_eq_ok_iff.mp h
  obtain ⟨t, rfl, rfl⟩ := Item.demand_eq_ok hmark
  refine ⟨t, rfl, ?_⟩
  cases hgiven : (t.part .isWildcard).isGiven with
  | true =>
    rw [hgiven] at h
    exact .inl ⟨rfl, (pure_eq_ok_iff.mp h).symm⟩
  | false =>
    rw [hgiven] at h
    obtain ⟨path, hpath, h⟩ := bind_eq_ok_iff.mp h
    obtain ⟨_, heq, rfl⟩ := Item.demand_eq_ok hpath
    obtain rfl := Item.value.inj heq
    refine .inr ⟨rfl, ?_⟩
    split at h
    · cases h
    · exact (pure_eq_ok_iff.mp h).symm

theorem mem_importedPaths_iff {unit : Tree} {paths : List Tree}
    (h : unit.importedPaths = .ok paths) {n : Text} :
    .word n ∈ paths ↔ ∃ i, HasItem (unit.part .imports) (.value i) ∧
      (i.part .isWildcard).isGiven = false ∧ i.part .path = .word n := by
  simp only [importedPaths, bind_eq_ok_iff, pure_eq_ok_iff] at h
  obtain ⟨imports, himports, items, hitems, found, hfound, rfl⟩ := h
  obtain rfl := demand_eq_ok himports
  simp only [List.mem_filterMap, id_eq, exists_eq_right, mem_of_mapM_eq_ok hfound]
  constructor
  · rintro ⟨i, hi, hpath⟩
    obtain ⟨t, rfl, ⟨_, hnone⟩ | ⟨hgiven, heq⟩⟩ := Item.importedPath_eq_ok hpath
    · cases hnone
    · exact ⟨t, ⟨items, hitems, hi⟩, hgiven, (Option.some.inj heq).symm⟩
  · rintro ⟨t, ⟨_, hitems', hi⟩, hgiven, hpath⟩
    rw [hitems, Except.ok.injEq] at hitems'
    subst hitems'
    obtain ⟨path, _, hok⟩ := exists_ok_of_mapM_eq_ok hfound hi
    obtain ⟨_, heq, ⟨hgiven', _⟩ | ⟨_, rfl⟩⟩ := Item.importedPath_eq_ok hok
    · obtain rfl := Item.value.inj heq
      rw [hgiven] at hgiven'
      cases hgiven'
    · obtain rfl := Item.value.inj heq
      rw [hpath] at hok
      exact ⟨_, hi, hok⟩

theorem isGiven_of_hasItem {v : Tree} {i : Item} (h : HasItem v i) : v.isGiven = true := by
  obtain ⟨items, hitems, hi⟩ := h
  cases v with
  | list xs =>
    obtain rfl := Except.ok.inj hitems
    cases xs with
    | nil => cases hi
    | cons x xs => rfl
  | word s =>
    obtain rfl := Except.ok.inj hitems
    cases s with
    | nil => cases hi
    | cons c s => rfl
  | node k parts => rfl
  | absent | flag | number => cases hitems

/-- The name of a reference is that of its chain. -/
theorem Item.supertypeText_eq_ok {i : Item} {n : Text} (h : i.supertypeText = .ok n) :
    ∃ t, i = .value t ∧ (t = .absent ∨ ∃ k parts, t = .node k parts) ∧
      ∀ n', (∃ names, NameChain t names ∧ n' = Text.join "." names) ↔ n' = n := by
  cases i with
  | visit => cases h
  | value t =>
    obtain ⟨links, hlinks, hjoin⟩ := bind_eq_ok_iff.mp h
    obtain ⟨names, rfl, rfl⟩ := joinChain_eq_ok_iff.mp hjoin
    refine ⟨t, rfl, ?_, fun n' => ?_⟩
    · cases t with
      | absent => exact .inl rfl
      | node k parts => exact .inr ⟨k, parts, rfl⟩
      | flag | number | word | list => simp [chainNames] at hlinks
    · simp [nameChain_iff_of_chainNames t hlinks]

theorem mem_extendedItems_iff {decl : Tree} {i : Item} :
    i ∈ decl.extendedItems ↔
      (∃ ref, i = .value ref ∧ decl.part .extended = ref ∧ ref ≠ .absent ∧
        ∀ refs, ref ≠ .list refs) ∨
        ∃ refs ref, i = .value ref ∧ decl.part .extended = .list refs ∧ ref ∈ refs := by
  rw [extendedItems]
  cases decl.part .extended with
  | list refs => simp [eq_comm, and_comm]
  | absent | flag | number | word | node => simp

theorem mem_implementedItems_iff {decl : Tree} {items : List Item}
    (h : decl.implementedItems = .ok items) {i : Item} :
    i ∈ items ↔ HasItem (decl.part .implemented) i := by
  rw [implementedItems] at h
  split at h
  · constructor
    · intro hi
      exact ⟨items, h, hi⟩
    · rintro ⟨_, hsame, hi⟩
      rw [h, Except.ok.injEq] at hsame
      rwa [hsame]
  · rename_i hgiven
    obtain rfl := Except.ok.inj h
    simp only [List.not_mem_nil, false_iff]
    exact fun hi => hgiven (isGiven_of_hasItem hi)

theorem mem_supertypes_iff {decl : Tree} {items : List Item} (h : decl.supertypes = .ok items)
    {i : Item} :
    i ∈ items ↔ i ∈ decl.extendedItems ∨ HasItem (decl.part .implemented) i := by
  simp only [supertypes, bind_eq_ok_iff, pure_eq_ok_iff] at h
  obtain ⟨implemented, himplemented, rfl⟩ := h
  rw [List.mem_append, mem_implementedItems_iff himplemented]

theorem mem_supertypeNames_iff {decl : Tree} {names : List Text}
    (h : decl.supertypeNames = .ok names) {n : Text} :
    n ∈ names ↔ ∃ ref links, Supertype decl ref ∧ NameChain ref links ∧
      n = Text.join "." links := by
  obtain ⟨items, hitems, hnames⟩ := bind_eq_ok_iff.mp h
  rw [mem_of_mapM_eq_ok hnames]
  constructor
  · rintro ⟨i, hi, htext⟩
    obtain ⟨t, rfl, hshape, hchain⟩ := Item.supertypeText_eq_ok htext
    obtain ⟨links, hlinks, hjoin⟩ := (hchain n).mpr rfl
    refine ⟨t, links, ?_, hlinks, hjoin⟩
    obtain hextended | himplemented := (mem_supertypes_iff hitems).mp hi
    · obtain ⟨ref, heq, hpart, hsome, _⟩ | ⟨refs, ref, heq, hpart, href⟩ :=
        mem_extendedItems_iff.mp hextended
      · obtain rfl := Item.value.inj heq
        obtain rfl | ⟨k, parts, rfl⟩ := hshape
        · exact absurd rfl hsome
        · exact .extended hpart
      · obtain rfl := Item.value.inj heq
        exact .listed hpart href
    · exact .implemented himplemented
  · rintro ⟨ref, links, hsuper, hlinks, rfl⟩
    have hi : Item.value ref ∈ items := by
      rw [mem_supertypes_iff hitems, mem_extendedItems_iff]
      cases hsuper with
      | extended hpart => exact .inl (.inl ⟨_, rfl, hpart, by simp, by simp⟩)
      | listed hpart href => exact .inl (.inr ⟨_, _, rfl, hpart, href⟩)
      | implemented hitem => exact .inr hitem
    obtain ⟨n, _, htext⟩ := exists_ok_of_mapM_eq_ok hnames hi
    obtain ⟨_, heq, _, hchain⟩ := Item.supertypeText_eq_ok htext
    obtain rfl := Item.value.inj heq
    have hn := (hchain _).mp ⟨links, hlinks, rfl⟩
    exact ⟨_, hi, hn ▸ htext⟩

theorem mem_declaredTypes_iff {decl : Tree} {texts : List Text}
    (h : decl.declaredTypes = .ok texts) {n : Text} :
    n ∈ texts ↔ ∃ d s m, HasItem (decl.part .declarators) d ∧ Written (decl.part .type) s ∧
      d.dimensionCount = .ok m ∧ n = s ++ bracketText m := by
  simp only [declaredTypes, bind_eq_ok_iff] at h
  obtain ⟨declarators, hdeclarators, items, hitems, htexts⟩ := h
  obtain rfl := demand_eq_ok hdeclarators
  rw [mem_of_mapM_eq_ok htexts]
  constructor
  · rintro ⟨d, hd, htext⟩
    obtain ⟨s, hs, m, hm, heq⟩ : ∃ s, (decl.part .type).typeText = .ok s ∧
        ∃ m, d.dimensionCount = .ok m ∧ s ++ bracketText m = n := by
      simpa only [bind_eq_ok_iff, pure_eq_ok_iff] using htext
    exact ⟨d, s, m, ⟨items, hitems, hd⟩, (written_iff_of_typeText _ hs _).mpr rfl, hm, heq.symm⟩
  · rintro ⟨d, s, m, ⟨_, hitems', hd⟩, hs, hm, rfl⟩
    rw [hitems, Except.ok.injEq] at hitems'
    subst hitems'
    obtain ⟨n, _, htext⟩ := exists_ok_of_mapM_eq_ok htexts hd
    refine ⟨d, hd, ?_⟩
    simp only [bind_eq_ok_iff, pure_eq_ok_iff] at htext ⊢
    obtain ⟨s', hs', _⟩ := htext
    rw [(written_iff_of_typeText _ hs' _).mp hs]
    exact ⟨s', hs', m, hm, rfl⟩

theorem isAbsent_eq_true_iff {t : Tree} : t.isAbsent = true ↔ t = .absent := by
  cases t <;> simp [isAbsent]

theorem mem_typeTextIfAny_iff {t : Tree} {texts : List Text} (h : t.typeTextIfAny = .ok texts)
    {n : Text} : n ∈ texts ↔ t ≠ .absent ∧ Written t n := by
  rw [typeTextIfAny] at h
  split at h
  · rename_i habsent
    obtain rfl := Except.ok.inj h
    simp [isAbsent_eq_true_iff.mp habsent]
  · rename_i hsome
    obtain ⟨s, hs, rfl⟩ := map_eq_ok_iff.mp h
    rw [List.mem_singleton, written_iff_of_typeText _ hs]
    exact ⟨fun heq => ⟨fun habsent => hsome (isAbsent_eq_true_iff.mpr habsent), heq⟩, And.right⟩

theorem mem_parameterTypes_iff {m : Tree} {texts : List Text} (h : m.parameterTypes = .ok texts)
    {n : Text} :
    n ∈ texts ↔ ∃ p, HasItem (m.part .parameters) (.value p) ∧ Written (p.part .type) n := by
  simp only [parameterTypes, bind_eq_ok_iff] at h
  obtain ⟨parameters, hparameters, items, hitems, htexts⟩ := h
  obtain rfl := demand_eq_ok hparameters
  rw [mem_of_mapM_eq_ok htexts]
  constructor
  · rintro ⟨i, hi, htext⟩
    obtain ⟨type, htype, hn⟩ := bind_eq_ok_iff.mp htext
    obtain ⟨p, rfl, rfl⟩ := Item.demand_eq_ok htype
    exact ⟨p, ⟨items, hitems, hi⟩, (written_iff_of_typeText _ hn _).mpr rfl⟩
  · rintro ⟨p, ⟨_, hitems', hp⟩, hn⟩
    rw [hitems, Except.ok.injEq] at hitems'
    subst hitems'
    obtain ⟨s, _, htext⟩ := exists_ok_of_mapM_eq_ok htexts hp
    obtain ⟨type, htype, hs⟩ := bind_eq_ok_iff.mp htext
    obtain ⟨_, heq, rfl⟩ := Item.demand_eq_ok htype
    obtain rfl := Item.value.inj heq
    rw [(written_iff_of_typeText _ hs _).mp hn]
    exact ⟨_, hp, htext⟩

theorem mem_signatureTypes_iff {m : Tree} {texts : List Text} (h : m.signatureTypes = .ok texts)
    {n : Text} :
    n ∈ texts ↔ (m.part .returnType ≠ .absent ∧ Written (m.part .returnType) n) ∨
      ∃ p, HasItem (m.part .parameters) (.value p) ∧ Written (p.part .type) n := by
  simp only [signatureTypes, bind_eq_ok_iff, pure_eq_ok_iff] at h
  obtain ⟨result, hresult, parameters, hparameters, rfl⟩ := h
  rw [List.mem_append, mem_typeTextIfAny_iff hresult, mem_parameterTypes_iff hparameters]

end Tree

end TypeAtlas.Java
