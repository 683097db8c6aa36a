import Mathlib.Logic.Relation
import TypeAtlas.Java.Dependencies
import TypeAtlas.Proofs.Agreement
import TypeAtlas.Proofs.Java.Reach

namespace TypeAtlas.Java

/-- The parts in which there is a name or a type. -/
def Part.isWritten (p : Part) : Bool :=
  [Part.name, .path, .type, .returnType, .extended, .implemented].contains p

namespace Tree

/-- In one list somewhere in a tree the items are permuted or repeated. This changes neither a name
or a type nor a number of brackets. -/
inductive Reorders : Tree → Tree → Prop
  | items {xs ys : List Tree} : (∀ t, t ∈ xs ↔ t ∈ ys) → Reorders (.list xs) (.list ys)
  | inItem {before after : List Tree} {t u : Tree} :
      Reorders t u → Reorders (.list (before ++ t :: after)) (.list (before ++ u :: after))
  | inPart {k : Kind} {before after : List (Part × Tree)} {p : Part} {t u : Tree} :
      Reorders t u → p.isWritten = false → (p = .dimensions → u.count = t.count) →
        Reorders (.node k (before ++ (p, t) :: after)) (.node k (before ++ (p, u) :: after))

/-- Items of lists are permuted or repeated anywhere in a tree. -/
abbrev Rearranges : Tree → Tree → Prop :=
  Relation.ReflTransGen Reorders

/-- Two trees are the same, or one is the other with one list in another order. -/
abbrev MayReorder : Tree → Tree → Prop :=
  Relation.ReflGen Reorders

variable {t u : Tree}

theorem Reorders.kind?_eq (h : Reorders t u) : u.kind? = t.kind? := by
  cases h <;> rfl

theorem Reorders.shape_eq (h : Reorders t u) : u.shape = t.shape := by
  cases h <;> rfl

theorem MayReorder.kind?_eq (h : MayReorder t u) : u.kind? = t.kind? := by
  cases h with
  | refl => rfl
  | single h => exact h.kind?_eq

theorem MayReorder.shape_eq (h : MayReorder t u) : u.shape = t.shape := by
  cases h with
  | refl => rfl
  | single h => exact h.shape_eq

theorem MayReorder.isAbsent_eq (h : MayReorder t u) : u.isAbsent = t.isAbsent := by
  obtain _ | h := h
  · rfl
  · cases h <;> rfl

theorem Reorders.isEmpty_listed (h : Reorders t u) : u.listed.isEmpty = t.listed.isEmpty := by
  rw [Bool.eq_iff_iff, List.isEmpty_iff, List.isEmpty_iff]
  cases h with
  | items hmem => simp only [listed, List.eq_nil_iff_forall_not_mem, hmem]
  | inItem => simp [listed]
  | inPart => rfl

theorem MayReorder.isGiven_eq (h : MayReorder t u) : u.isGiven = t.isGiven := by
  obtain _ | h := h
  · rfl
  · have hempty := h.isEmpty_listed
    cases h with
    | items => exact congrArg (!·) hempty
    | inItem => exact congrArg (!·) hempty
    | inPart => rfl

theorem part_node (k : Kind) (before after : List (Part × Tree)) (q p : Part) (v : Tree) :
    (Tree.node k (before ++ (q, v) :: after)).part p =
      match before.find? (·.1 = p) with
      | some entry => entry.2
      | none => if q = p then v else (Tree.node k after).part p := by
  rw [part, List.find?_append]
  cases before.find? (·.1 = p) with
  | some entry => rfl
  | none =>
    rw [Option.none_or]
    by_cases hq : q = p
    · simp [hq]
    · simp [hq, part]

/-- What the parts of a node have in common with those of one with another order somewhere. -/
theorem MayReorder.part (h : MayReorder t u) (p : Part) :
    MayReorder (t.part p) (u.part p) ∧ (p.isWritten = true → u.part p = t.part p) ∧
      (p = .dimensions → (u.part p).count = (t.part p).count) := by
  obtain _ | h := h
  · exact ⟨.refl, fun _ => rfl, fun _ => rfl⟩
  · cases h with
    | items => exact ⟨.refl, fun _ => rfl, fun _ => rfl⟩
    | inItem => exact ⟨.refl, fun _ => rfl, fun _ => rfl⟩
    | @inPart k before after q v w hvw hwritten hcount =>
      rw [part_node, part_node]
      cases before.find? (·.1 = p) with
      | some entry => exact ⟨.refl, fun _ => rfl, fun _ => rfl⟩
      | none =>
        by_cases hq : q = p
        · subst hq
          simp only [if_true]
          exact ⟨.single hvw, fun hp => absurd hp (by simp [hwritten]), hcount⟩
        · simp only [if_neg hq]
          exact ⟨.refl, fun _ => trivial, fun _ => trivial⟩

theorem MayReorder.part_eq (h : MayReorder t u) {p : Part} (hp : p.isWritten = true) :
    u.part p = t.part p :=
  (h.part p).2.1 hp

theorem MayReorder.demand (h : MayReorder t u) (p : Part) :
    Agree MayReorder (t.demand p) (u.demand p) := by
  obtain ⟨hpart, _⟩ := h.part p
  rw [Tree.demand, Tree.demand, h.kind?_eq, h.shape_eq, hpart.isAbsent_eq]
  split
  · exact .ok hpart
  · exact .error

theorem MayReorder.demand_eq (h : MayReorder t u) {p : Part} (hp : p.isWritten = true) :
    u.demand p = t.demand p := by
  rw [Tree.demand, Tree.demand, h.kind?_eq, h.shape_eq, h.part_eq hp]

theorem nodesOfList_eq_flatMap (items : List Tree) : nodesOfList items = items.flatMap nodes := by
  induction items with
  | nil => rfl
  | cons t items ih => rw [nodesOfList, ih, List.flatMap_cons]

theorem nodesOfParts_eq_flatMap (parts : List (Part × Tree)) :
    nodesOfParts parts = parts.flatMap fun entry => entry.2.nodes := by
  induction parts with
  | nil => rfl
  | cons entry parts ih => rw [nodesOfParts, ih, List.flatMap_cons]

/-- The nodes of a tree have partners in one with another order somewhere. -/
theorem Reorders.matched_nodes (h : Reorders t u) : Matched MayReorder t.nodes u.nodes := by
  have hself (v : Tree) : Matched MayReorder v.nodes v.nodes := matched_refl fun _ _ => .refl
  induction h with
  | items hmem =>
    refine matched_of_mem_iff (fun _ => .refl) fun n => ?_
    simp only [nodes, mem_nodesOfList, hmem]
  | @inItem before after t u _ ih =>
    rw [nodes, nodes, nodesOfList_eq_flatMap, nodesOfList_eq_flatMap]
    have hitems := matched_splice (R := fun v w => Matched MayReorder v.nodes w.nodes) hself ih
      before after
    exact hitems.flatMap fun _ _ hnodes => hnodes
  | @inPart k before after p v w hvw hwritten hcount ih =>
    rw [nodes, nodes, nodesOfParts_eq_flatMap, nodesOfParts_eq_flatMap]
    have hparts := matched_splice
      (R := fun v w : Part × Tree => Matched MayReorder v.2.nodes w.2.nodes)
      (x := (p, v)) (y := (p, w)) (fun v => hself v.2) ih before after
    exact (hparts.flatMap fun _ _ hnodes => hnodes).cons (.single (.inPart hvw hwritten hcount))

theorem MayReorder.matched_nodes (h : MayReorder t u) : Matched MayReorder t.nodes u.nodes := by
  cases h with
  | refl => exact matched_refl fun _ _ => .refl
  | single h => exact h.matched_nodes

theorem MayReorder.matched_nodesOf (h : MayReorder t u) (p : Kind → Bool) :
    Matched MayReorder (t.nodesOf p) (u.nodesOf p) :=
  h.matched_nodes.filter fun _ _ hn => by rw [hn.kind?_eq]

/-- What is met in going through two trees that are alike. -/
inductive Item.MayReorder : Item → Item → Prop
  | value {t u : Tree} : Tree.MayReorder t u → Item.MayReorder (.value t) (.value u)
  | visit : Item.MayReorder .visit .visit

theorem Item.mayReorder_refl (i : Item) : i.MayReorder i := by
  cases i with
  | value t => exact .value .refl
  | visit => exact .visit

theorem MayReorder.items (h : MayReorder t u) :
    Agree (Matched Item.MayReorder) t.items u.items := by
  have hvalues {xs ys : List Tree} (hxs : Matched MayReorder xs ys) :
      Matched Item.MayReorder (xs.map .value) (ys.map .value) :=
    matched_map_iff.mpr (hxs.imp fun _ _ _ _ => .value)
  have hnodes := h.matched_nodes
  obtain _ | h := h
  · refine (Agree.refl t.items).imp fun is _ _ _ heq => ?_
    exact heq ▸ matched_refl fun i _ => i.mayReorder_refl
  · cases h with
    | items hmem => exact .ok (hvalues (matched_of_mem_iff (fun _ => .refl) hmem))
    | inItem h => exact .ok (hvalues (matched_splice (fun _ => .refl) (.single h) _ _))
    | inPart => exact .ok (matched_map_iff.mpr (hnodes.imp fun _ _ _ _ _ => .visit))

theorem Item.MayReorder.demand {i j : Item} (h : i.MayReorder j) (p : Part) :
    Agree Tree.MayReorder (i.demand p) (j.demand p) := by
  cases h with
  | value h => exact h.demand p
  | visit => exact .error

theorem Item.MayReorder.demand_eq {i j : Item} (h : i.MayReorder j) {p : Part}
    (hp : p.isWritten = true) :
    j.demand p = i.demand p := by
  cases h with
  | value h => exact h.demand_eq hp
  | visit => rfl

theorem Item.MayReorder.importedPath {i j : Item} (h : i.MayReorder j) :
    Agree Eq i.importedPath j.importedPath := by
  refine (h.demand .isWildcard).bind fun v w hvw => ?_
  rw [hvw.isGiven_eq, h.demand_eq (p := .path) rfl]
  exact .refl _

theorem Item.MayReorder.dimensionCount_eq {i j : Item} (h : i.MayReorder j) :
    j.dimensionCount = i.dimensionCount := by
  cases h with
  | value h => exact (h.part .dimensions).2.2 rfl
  | visit => rfl

/-- Two lists have the same members. -/
def SameMembers {α : Type} (xs ys : List α) : Prop :=
  ∀ x, x ∈ xs ↔ x ∈ ys

/-- Mappings of lists whose members have partners with which the mappings agree give the same. -/
theorem sameMembers_mapM {ε α β ξ : Type} {A : ξ → α → Prop} {xs : List ξ} {ys : List α}
    {f : ξ → Except ε β} {g : α → Except ε β} (h : Matched A xs ys)
    (hf : ∀ x y, A x y → Agree Eq (f x) (g y)) : Agree SameMembers (xs.mapM f) (ys.mapM g) :=
  (Agree.mapM_matched h hf).imp fun _ _ _ _ hmatched => matched_eq_iff.mp hmatched

theorem sameMembers_refl {ε α : Type} (x : Except ε (List α)) : Agree SameMembers x x :=
  (Agree.refl x).imp fun _ _ _ _ heq _ => heq ▸ Iff.rfl

theorem MayReorder.importedPaths (h : MayReorder t u) :
    Agree SameMembers t.importedPaths u.importedPaths := by
  refine (h.demand .imports).bind fun v w hvw => hvw.items.bind fun is js hitems => ?_
  refine (sameMembers_mapM hitems fun _ _ hij => hij.importedPath).bind fun ps qs hpq => .pure ?_
  intro path
  simp only [List.mem_filterMap, hpq _]

theorem MayReorder.supertypeNames (h : MayReorder t u) :
    Agree SameMembers t.supertypeNames u.supertypeNames := by
  have heq : u.supertypes = t.supertypes := by
    rw [supertypes, supertypes, extendedItems, extendedItems, implementedItems, implementedItems,
      h.part_eq (p := .extended) rfl, h.part_eq (p := .implemented) rfl]
  rw [Tree.supertypeNames, Tree.supertypeNames, heq]
  exact sameMembers_refl _

theorem MayReorder.declaredTypes (h : MayReorder t u) :
    Agree SameMembers t.declaredTypes u.declaredTypes := by
  refine (h.demand .declarators).bind fun v w hvw => hvw.items.bind fun is js hitems => ?_
  refine sameMembers_mapM hitems fun i j hij => ?_
  rw [h.part_eq (p := .type) rfl, hij.dimensionCount_eq]
  exact .refl _

theorem MayReorder.parameterTypes (h : MayReorder t u) :
    Agree SameMembers t.parameterTypes u.parameterTypes := by
  refine (h.demand .parameters).bind fun v w hvw => hvw.items.bind fun is js hitems => ?_
  refine sameMembers_mapM hitems fun i j hij => ?_
  rw [hij.demand_eq (p := .type) rfl]
  exact .refl _

theorem MayReorder.signatureTypes (h : MayReorder t u) :
    Agree SameMembers t.signatureTypes u.signatureTypes := by
  rw [Tree.signatureTypes, Tree.signatureTypes, h.part_eq (p := .returnType) rfl]
  refine (Agree.refl _).bind ?_
  rintro returned _ rfl
  refine h.parameterTypes.bind fun ss ss' hss => .pure ?_
  intro s
  rw [List.mem_append, List.mem_append, hss s]

theorem MayReorder.resourceTypes (h : MayReorder t u) :
    Agree SameMembers t.resourceTypes u.resourceTypes := by
  rw [Tree.resourceTypes, Tree.resourceTypes, h.part_eq (p := .type) rfl]
  exact sameMembers_refl _

/-- The same texts are found at the nodes of trees that are alike. -/
theorem MayReorder.textsAt (h : MayReorder t u) (p : Kind → Bool)
    {f : Tree → Except TreeFault (List Text)}
    (hf : ∀ v w : Tree, MayReorder v w → Agree SameMembers (f v) (f w)) :
    Agree SameMembers (t.textsAt p f) (u.textsAt p f) := by
  refine (Agree.mapM_matched (h.matched_nodesOf p) hf).map fun lists lists' hlists => ?_
  have hflat := hlists.flatMap (f := id) (g := id) fun _ _ hlist => matched_eq_iff.mpr hlist
  rw [List.flatMap_id, List.flatMap_id] at hflat
  exact matched_eq_iff.mp hflat

theorem MayReorder.word?_declaredPackage (h : MayReorder t u) :
    Agree (fun a b => b.word? = a.word?) t.declaredPackage u.declaredPackage := by
  obtain ⟨hpackage, _⟩ := h.part .package
  have hname := hpackage.demand_eq (p := .name) rfl
  rw [declaredPackage, declaredPackage]
  generalize t.part .package = v at hpackage hname
  generalize u.part .package = w at hpackage hname
  obtain _ | h := hpackage
  · exact (Agree.refl _).imp fun _ _ _ _ heq => heq ▸ rfl
  · cases h with
    | items | inItem | inPart =>
      simp only [hname]
      exact (Agree.refl _).imp fun _ _ _ _ heq => heq ▸ rfl

/-- The references of a unit in which all texts have been found. -/
def collect (p : Text) (unit : Tree) (paths : List Tree) (inherited typed : List Text) :
    Except TreeFault References := do
  let used := paths.filterMap word? ++ inherited ++ typed.filter (!isScalar ·)
  let strangers := paths.filter (·.word?.isNone)
  if let (path :: _, false) := (strangers, p.isEmpty) then throw (.badPath path.shape)
  return {
    package := ← unit.declaredPackage
    names := .ofList (used.filter (!isImplied p ·))
    strangers }

theorem references_eq (p : Text) (unit : Tree) :
    unit.references p = (do
      let paths ← unit.importedPaths
      let inherited ← unit.textsAt Kind.hasSupertypes Tree.supertypeNames
      let fields ← unit.textsAt Kind.isField Tree.declaredTypes
      let signatures ← unit.textsAt (· = .method) Tree.signatureTypes
      let locals ← unit.textsAt Kind.isVariables Tree.declaredTypes
      let resources ← unit.textsAt (· = .resource) Tree.resourceTypes
      collect p unit paths inherited (fields ++ signatures ++ locals ++ resources)) :=
  rfl

theorem collect_of_stranger {p : Text} {paths : List Tree} (hp : p ≠ []) {path : Tree}
    (hpath : path ∈ paths) (hword : path.word? = none) (unit : Tree)
    (inherited typed : List Text) : ∃ e, collect p unit paths inherited typed = .error e := by
  have hstranger : path ∈ paths.filter (·.word?.isNone) :=
    List.mem_filter.mpr ⟨hpath, by rw [hword]; rfl⟩
  have hempty : p.isEmpty = false := by simpa using hp
  rw [collect, hempty]
  cases hstrangers : paths.filter (·.word?.isNone) with
  | nil =>
    rw [hstrangers] at hstranger
    cases hstranger
  | cons first rest => exact ⟨_, rfl⟩

theorem collect_of_words {p : Text} {paths : List Tree}
    (h : p = [] ∨ ∀ path ∈ paths, path.word? ≠ none) (unit : Tree) (inherited typed : List Text) :
    collect p unit paths inherited typed = unit.declaredPackage.map fun package =>
      { package
        names := .ofList ((paths.filterMap word? ++ inherited ++
          typed.filter (!isScalar ·)).filter (!isImplied p ·))
        strangers := paths.filter (·.word?.isNone) } := by
  have hthrow : paths.filter (·.word?.isNone) = [] ∨ p.isEmpty = true := by
    obtain rfl | hwords := h
    · exact .inr rfl
    · refine .inl (List.filter_eq_nil_iff.mpr fun path hpath => ?_)
      simpa using hwords path hpath
  rw [collect]
  obtain hnil | hempty := hthrow
  · rw [hnil]
    rfl
  · rw [hempty]
    cases paths.filter (·.word?.isNone) <;> rfl

theorem MayReorder.collect (h : MayReorder t u) {p : Text} {paths paths' : List Tree}
    {inherited inherited' typed typed' : List Text} (hpaths : SameMembers paths paths')
    (hinherited : SameMembers inherited inherited') (htyped : SameMembers typed typed') :
    Agree (fun r s => s.package.word? = r.package.word? ∧ s.names = r.names)
      (collect p t paths inherited typed) (collect p u paths' inherited' typed') := by
  by_cases hwords : p = [] ∨ ∀ path ∈ paths, path.word? ≠ none
  · have hwords' : p = [] ∨ ∀ path ∈ paths', path.word? ≠ none := by
      simpa only [← hpaths _] using hwords
    rw [collect_of_words hwords, collect_of_words hwords']
    refine h.word?_declaredPackage.map fun a b hab => ⟨hab, NameSet.ext fun n => ?_⟩
    simp only [NameSet.mem_ofList, List.mem_filter, List.mem_append, List.mem_filterMap, ← hpaths _,
      ← hinherited _, ← htyped _]
  · push Not at hwords
    obtain ⟨hp, path, hpath, hword⟩ := hwords
    obtain ⟨e, he⟩ := collect_of_stranger hp hpath hword t inherited typed
    obtain ⟨e', he'⟩ := collect_of_stranger hp ((hpaths path).mp hpath) hword u inherited' typed'
    rw [he, he']
    exact .error

/-- A unit in which one list has another order has the same dependencies. -/
theorem Reorders.dependencies (h : Reorders t u) (p : Text) :
    Agree Eq (t.dependencies p) (u.dependencies p) := by
  have hmay : MayReorder t u := .single h
  refine Agree.bind (R := fun r s => s.package.word? = r.package.word? ∧ s.names = r.names) ?_ ?_
  · rw [references_eq, references_eq]
    refine hmay.importedPaths.bind fun paths paths' hpaths => ?_
    refine (hmay.textsAt _ fun _ _ hvw => hvw.supertypeNames).bind fun a a' hinherited => ?_
    refine (hmay.textsAt _ fun _ _ hvw => hvw.declaredTypes).bind fun b b' hfields => ?_
    refine (hmay.textsAt _ fun _ _ hvw => hvw.signatureTypes).bind fun c c' hsignatures => ?_
    refine (hmay.textsAt _ fun _ _ hvw => hvw.declaredTypes).bind fun d d' hlocals => ?_
    refine (hmay.textsAt _ fun _ _ hvw => hvw.resourceTypes).bind fun e e' hresources => ?_
    refine hmay.collect hpaths hinherited fun s => ?_
    simp only [List.mem_append, hfields s, hsignatures s, hlocals s, hresources s]
  · rintro r s ⟨hpackage, hnames⟩
    rw [hpackage, hnames]
    exact .pure rfl

/-- A unit in which lists have another order has the same dependencies. -/
theorem Rearranges.dependencies (h : Rearranges t u) (p : Text) :
    Agree Eq (t.dependencies p) (u.dependencies p) := by
  induction h with
  | refl => exact .refl _
  | tail _ hstep ih => exact ih.trans (hstep.dependencies p) fun _ _ _ => Eq.trans

end Tree

end TypeAtlas.Java
