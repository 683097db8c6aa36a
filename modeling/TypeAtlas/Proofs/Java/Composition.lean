import Mathlib
import TypeAtlas.Proofs.Java.Rearranging

namespace TypeAtlas

variable {ε α β γ α' β' γ' : Type}

/-- A result joins two others: it is a failure if one of these is, and else its value stands in the
relation `J` to theirs. -/
inductive Joins (J : α → β → γ → Prop) : Except ε α → Except ε β → Except ε γ → Prop
  | ok {a : α} {b : β} {c : γ} : J a b c → Joins J (.ok a) (.ok b) (.ok c)
  | left {e e' : ε} {y : Except ε β} : Joins J (.error e) y (.error e')
  | right {x : Except ε α} {e e' : ε} : Joins J x (.error e) (.error e')

/-- A list has all members of two others, and no more. -/
def IsUnion (xs ys zs : List α) : Prop :=
  ∀ x, x ∈ zs ↔ x ∈ xs ∨ x ∈ ys

namespace IsUnion

variable {xs ys zs xs' ys' zs' : List α}

theorem append (h : IsUnion xs ys zs) (h' : IsUnion xs' ys' zs') :
    IsUnion (xs ++ xs') (ys ++ ys') (zs ++ zs') := by
  intro x
  simp only [List.mem_append, h x, h' x]
  tauto

theorem filter (h : IsUnion xs ys zs) (p : α → Bool) :
    IsUnion (xs.filter p) (ys.filter p) (zs.filter p) := by
  intro x
  simp only [List.mem_filter, h x, or_and_right]

theorem filterMap (h : IsUnion xs ys zs) (f : α → Option β) :
    IsUnion (xs.filterMap f) (ys.filterMap f) (zs.filterMap f) := by
  intro y
  simp only [List.mem_filterMap, h _, or_and_right, exists_or]

theorem flatten {xss yss zss : List (List α)} (h : IsUnion xss yss zss) :
    IsUnion xss.flatten yss.flatten zss.flatten := by
  intro x
  simp only [List.mem_flatten, h _, or_and_right, exists_or]

end IsUnion

namespace Joins

variable {J : α → β → γ → Prop} {K : α' → β' → γ' → Prop} {x : Except ε α} {y : Except ε β}
  {z : Except ε γ}

theorem bind {f : α → Except ε α'} {g : β → Except ε β'} {h : γ → Except ε γ'}
    (hjoins : Joins J x y z)
    (hf : ∀ a b c, J a b c → Joins K (f a) (g b) (h c)) :
    Joins K (x >>= f) (y >>= g) (z >>= h) := by
  cases hjoins with
  | ok hj => exact hf _ _ _ hj
  | left => exact .left
  | right => exact .right

theorem map {f : α → α'} {g : β → β'} {h : γ → γ'} (hjoins : Joins J x y z)
    (hf : ∀ a b c, J a b c → K (f a) (g b) (h c)) : Joins K (x.map f) (y.map g) (z.map h) := by
  cases hjoins with
  | ok hj => exact .ok (hf _ _ _ hj)
  | left => exact .left
  | right => exact .right

/-- What a mapping makes of a union is the union of what it makes of its parts. -/
theorem mapM {xs ys zs : List α} (hunion : IsUnion xs ys zs) (f : α → Except ε β) :
    Joins IsUnion (xs.mapM f) (ys.mapM f) (zs.mapM f) := by
  have hfails {ws : List α} (hws : ∀ x ∈ ws, x ∈ zs) {e : ε} (he : ws.mapM f = .error e) :
      ∃ e', zs.mapM f = .error e' := by
    cases hzs : zs.mapM f with
    | error e' => exact ⟨e', rfl⟩
    | ok cs =>
      obtain ⟨bs, hbs⟩ := exists_mapM_eq_ok fun x hx => by
        obtain ⟨c, _, hc⟩ := exists_ok_of_mapM_eq_ok hzs (hws x hx)
        exact ⟨c, hc⟩
      cases he.symm.trans hbs
  cases hxs : xs.mapM f with
  | error e =>
    obtain ⟨e', he'⟩ := hfails (fun x hx => (hunion x).mpr (.inl hx)) hxs
    rw [he']
    exact .left
  | ok as =>
    cases hys : ys.mapM f with
    | error e =>
      obtain ⟨e', he'⟩ := hfails (fun x hx => (hunion x).mpr (.inr hx)) hys
      rw [he']
      exact .right
    | ok bs =>
      have hall : ∀ x ∈ zs, ∃ c, f x = .ok c := by
        intro x hx
        obtain hleft | hright := (hunion x).mp hx
        · obtain ⟨a, _, ha⟩ := exists_ok_of_mapM_eq_ok hxs hleft
          exact ⟨a, ha⟩
        · obtain ⟨b, _, hb⟩ := exists_ok_of_mapM_eq_ok hys hright
          exact ⟨b, hb⟩
      obtain ⟨cs, hcs⟩ := exists_mapM_eq_ok hall
      rw [hcs]
      refine .ok fun c => ?_
      rw [mem_of_mapM_eq_ok hxs, mem_of_mapM_eq_ok hys, mem_of_mapM_eq_ok hcs]
      constructor
      · rintro ⟨x, hx, hc⟩
        exact ((hunion x).mp hx).imp (fun hleft => ⟨x, hleft, hc⟩) fun hright => ⟨x, hright, hc⟩
      · rintro (⟨x, hx, hc⟩ | ⟨x, hx, hc⟩)
        · exact ⟨x, (hunion x).mpr (.inl hx), hc⟩
        · exact ⟨x, (hunion x).mpr (.inr hx), hc⟩

end Joins

namespace Java.Tree

/-- A unit without a package clause. -/
def bareUnit (imports types : List Tree) : Tree :=
  .node .compilationUnit [(.package, .absent), (.imports, .list imports), (.types, .list types)]

variable (imports imports' types types' : List Tree)

theorem importedPaths_bareUnit :
    (bareUnit imports types).importedPaths =
      ((imports.map Item.value).mapM Item.importedPath).map (·.filterMap id) := by
  change ((imports.map Item.value).mapM Item.importedPath >>= _) = _
  cases (imports.map Item.value).mapM Item.importedPath <;> rfl

theorem mem_nodesOf_bareUnit {p : Kind → Bool} (hp : p .compilationUnit = false) (n : Tree) :
    n ∈ (bareUnit imports types).nodesOf p ↔
      (n ∈ nodesOfList imports ∨ n ∈ nodesOfList types) ∧ n.kind?.any p = true := by
  rw [nodesOf, List.mem_filter, bareUnit, mem_nodes_node]
  simp only [nodesOfParts, nodes, List.nil_append, List.append_nil, List.mem_append]
  constructor
  · rintro ⟨rfl | hn, hkind⟩
    · simp [kind?, hp] at hkind
    · exact ⟨hn, hkind⟩
  · rintro ⟨hn, hkind⟩
    exact ⟨.inr hn, hkind⟩

theorem joins_importedPaths :
    Joins IsUnion (bareUnit imports types).importedPaths (bareUnit imports' types').importedPaths
      (bareUnit (imports ++ imports') (types ++ types')).importedPaths := by
  rw [importedPaths_bareUnit, importedPaths_bareUnit, importedPaths_bareUnit]
  have hunion : IsUnion (imports.map Item.value) (imports'.map Item.value)
      ((imports ++ imports').map Item.value) := by
    intro i
    rw [List.map_append, List.mem_append]
  exact (Joins.mapM hunion _).map fun _ _ _ hpaths => hpaths.filterMap id

theorem joins_textsAt {p : Kind → Bool} (hp : p .compilationUnit = false)
    (f : Tree → Except TreeFault (List Text)) :
    Joins IsUnion ((bareUnit imports types).textsAt p f) ((bareUnit imports' types').textsAt p f)
      ((bareUnit (imports ++ imports') (types ++ types')).textsAt p f) := by
  have hunion : IsUnion ((bareUnit imports types).nodesOf p) ((bareUnit imports' types').nodesOf p)
      ((bareUnit (imports ++ imports') (types ++ types')).nodesOf p) := by
    intro n
    simp only [mem_nodesOf_bareUnit _ _ hp, nodesOfList_eq_flatMap, List.flatMap_append,
      List.mem_append]
    tauto
  exact (Joins.mapM hunion f).map fun _ _ _ htexts => htexts.flatten

theorem joins_collect {p : Text} {paths paths' paths'' : List Tree}
    {inherited inherited' inherited'' typed typed' typed'' : List Text}
    (hpaths : IsUnion paths paths' paths'') (hinherited : IsUnion inherited inherited' inherited'')
    (htyped : IsUnion typed typed' typed'') :
    Joins (fun r s q => ∀ n, n ∈ q.names ↔ n ∈ r.names ∨ n ∈ s.names)
      (collect p (bareUnit imports types) paths inherited typed)
      (collect p (bareUnit imports' types') paths' inherited' typed')
      (collect p (bareUnit (imports ++ imports') (types ++ types')) paths'' inherited''
        typed'') := by
  by_cases hleft : p = [] ∨ ∀ path ∈ paths, path.word? ≠ none
  · by_cases hright : p = [] ∨ ∀ path ∈ paths', path.word? ≠ none
    · have hwords : p = [] ∨ ∀ path ∈ paths'', path.word? ≠ none := by
        rw [or_iff_not_imp_left] at hleft hright ⊢
        intro hp path hpath
        exact ((hpaths path).mp hpath).elim (hleft hp path) (hright hp path)
      rw [collect_of_words hleft, collect_of_words hright, collect_of_words hwords]
      have hused :=
        ((hpaths.filterMap word?).append hinherited).append (htyped.filter (!isScalar ·))
      refine .ok fun n => ?_
      rw [NameSet.mem_ofList, NameSet.mem_ofList, NameSet.mem_ofList]
      exact hused.filter (!isImplied p ·) n
    · push Not at hright
      obtain ⟨hp, path, hpath, hword⟩ := hright
      obtain ⟨e, he⟩ :=
        collect_of_stranger hp hpath hword (bareUnit imports' types') inherited' typed'
      obtain ⟨e', he'⟩ := collect_of_stranger hp ((hpaths path).mpr (.inr hpath)) hword
        (bareUnit (imports ++ imports') (types ++ types')) inherited'' typed''
      rw [he, he']
      exact .right
  · push Not at hleft
    obtain ⟨hp, path, hpath, hword⟩ := hleft
    obtain ⟨e, he⟩ := collect_of_stranger hp hpath hword (bareUnit imports types) inherited typed
    obtain ⟨e', he'⟩ := collect_of_stranger hp ((hpaths path).mpr (.inl hpath)) hword
      (bareUnit (imports ++ imports') (types ++ types')) inherited'' typed''
    rw [he, he']
    exact .left

/-- The dependencies of what two units hold together are those of both. -/
theorem joins_dependencies (p : Text) :
    Joins (fun d e f => ∀ n, n ∈ f.names ↔ n ∈ d.names ∨ n ∈ e.names)
      ((bareUnit imports types).dependencies p) ((bareUnit imports' types').dependencies p)
      ((bareUnit (imports ++ imports') (types ++ types')).dependencies p) := by
  have htexts {q : Kind → Bool} (hq : q .compilationUnit = false) :=
    joins_textsAt imports imports' types types' hq
  refine Joins.bind (J := fun r s q => ∀ n, n ∈ q.names ↔ n ∈ r.names ∨ n ∈ s.names) ?_ ?_
  · rw [references_eq, references_eq, references_eq]
    refine (joins_importedPaths imports imports' types types').bind fun _ _ _ hpaths => ?_
    refine (htexts rfl _).bind fun _ _ _ hinherited => (htexts rfl _).bind fun _ _ _ hfields => ?_
    refine (htexts rfl _).bind fun _ _ _ hsignatures => (htexts rfl _).bind fun _ _ _ hlocals => ?_
    refine (htexts rfl _).bind fun _ _ _ hresources => ?_
    have htyped := ((hfields.append hsignatures).append hlocals).append hresources
    exact joins_collect imports imports' types types' hpaths hinherited htyped
  · intro r s q hnames
    exact .ok hnames

/-- What a unit depends on is made up of what its imports and its types depend on one by one: units
can be put together, and their lists can be rearranged, be it inside a declaration or a statement.
-/
theorem dependencies_joins_and_rearranges (p : Text) :
    (∀ imports imports' types types' : List Tree,
      Joins (fun d e f => ∀ n, n ∈ f.names ↔ n ∈ d.names ∨ n ∈ e.names)
        ((bareUnit imports types).dependencies p) ((bareUnit imports' types').dependencies p)
        ((bareUnit (imports ++ imports') (types ++ types')).dependencies p)) ∧
      ∀ unit unit' : Tree, Rearranges unit unit' →
        Agree Eq (unit.dependencies p) (unit'.dependencies p) :=
  ⟨fun imports imports' types types' => joins_dependencies imports imports' types types' p,
    fun _ _ hrearranges => hrearranges.dependencies p⟩

/-- The import of a type. -/
def importOf (path : Text) : Tree :=
  .node .importDeclaration [(.path, .word path)]

/-- A variable with `n` pairs of brackets after its name. -/
def declaratorOf (name : Text) (n : Nat) : Tree :=
  .node .declarator [(.name, .word name), (.dimensions, .list (List.replicate n .absent))]

/-- A class with a field of the given declarators. -/
def classOf (declarators : List Tree) : Tree :=
  .node .classDeclaration
    [(.name, .word "C"),
      (.body, .list [.node .field
        [(.type, .node .basicType [(.name, .word "int"), (.dimensions, .list [])]),
          (.declarators, .list declarators)]])]

theorem Rearranges.of_declarators {declarators declarators' : List Tree}
    (h : ∀ d, d ∈ declarators ↔ d ∈ declarators') (imports : List Tree) :
    Rearranges (bareUnit imports [classOf declarators])
      (bareUnit imports [classOf declarators']) := by
  have hfield := @Reorders.inPart .field
    [(.type, .node .basicType [(.name, .word "int"), (.dimensions, .list [])])] [] .declarators _ _
    (.items h) rfl nofun
  have hbody := @Reorders.inItem [] [] _ _ hfield
  have hclass :=
    @Reorders.inPart .classDeclaration [(.name, .word "C")] [] .body _ _ hbody rfl nofun
  have htypes := @Reorders.inItem [] [] _ _ hclass
  exact .single (@Reorders.inPart _ [_, _] [] _ _ _ htypes rfl nofun)

/-- A unit with two imports, and a class with two variables. -/
def neatUnit : Tree :=
  bareUnit [importOf "a.B", importOf "c.D"] [classOf [declaratorOf "x" 0, declaratorOf "ys" 2]]

/-- The same in another order, and with an import twice. -/
def mixedUnit : Tree :=
  bareUnit [importOf "c.D", importOf "a.B", importOf "c.D"]
    [classOf [declaratorOf "ys" 2, declaratorOf "x" 0]]

theorem dependencies_joins_and_rearranges_mixedUnit :
    Rearranges neatUnit mixedUnit ∧
    neatUnit.dependencies "java.lang." =
      .ok { declaredPackage := none, names := .ofList ["a.B", "c.D", "int[][]"] } ∧
    Agree Eq (neatUnit.dependencies "java.lang.") (mixedUnit.dependencies "java.lang.") := by
  have himports : Reorders
      (bareUnit [importOf "a.B", importOf "c.D"]
        [classOf [declaratorOf "x" 0, declaratorOf "ys" 2]])
      (bareUnit [importOf "c.D", importOf "a.B", importOf "c.D"]
        [classOf [declaratorOf "x" 0, declaratorOf "ys" 2]]) := by
    refine @Reorders.inPart _ [_] [_] _ _ _ (.items fun i => ?_) rfl nofun
    simp only [List.mem_cons, List.not_mem_nil, or_false]
    tauto
  have hdeclarators : Rearranges
      (bareUnit [importOf "c.D", importOf "a.B", importOf "c.D"]
        [classOf [declaratorOf "x" 0, declaratorOf "ys" 2]]) mixedUnit :=
    .of_declarators (fun d => by simp [or_comm]) _
  have hrearranges : Rearranges neatUnit mixedUnit := .head himports hdeclarators
  exact ⟨hrearranges, by cbv, (dependencies_joins_and_rearranges "java.lang.").2 _ _ hrearranges⟩

end Java.Tree

end TypeAtlas
