import TypeAtlas.Proofs.Analysis.Completeness
import TypeAtlas.Proofs.Files.Placing

namespace TypeAtlas

open Concurrency

namespace Disk

/-- A path leads to the same thing on two disks, but for what is in it if it is a folder. -/
def SameShapeAt (d d' : Disk) (p : Path) : Prop :=
  (d'.stat p).map Node.shape = (d.stat p).map Node.shape

/-- The entries `es'` of a folder on the disk `d'` are the entries `es` that it has on the disk `d`, to
which others have been added, there or in the folders below, that do not count in an analysis. -/
inductive Adds (d d' : Disk) (extension : Text) :
    Path → List (Text × Node) → List (Text × Node) → Prop
  | nil {path : Path} : Adds d d' extension path [] []
  | kept {path : Path} {name : Text} {n : Node} {es es' : List (Text × Node)} :
      (∀ below, n ≠ .folder below) → d.SameShapeAt d' (path.child name) →
        Adds d d' extension path es es' →
          Adds d d' extension path ((name, n) :: es) ((name, n) :: es')
  | folder {path : Path} {name : Text} {below below' es es' : List (Text × Node)} :
      Adds d d' extension (path.child name) below below' → Adds d d' extension path es es' →
        Adds d d' extension path ((name, .folder below) :: es) ((name, .folder below') :: es')
  | added {path : Path} {name : Text} {n : Node} {es es' : List (Text × Node)} {kind : EntryKind} :
      d'.entryKind path extension name n = .ok kind → kind ≠ .source → kind ≠ .folder →
        Adds d d' extension path es es' → Adds d d' extension path es ((name, n) :: es')

variable {d d' : Disk} {c : Settings} {extension : Text} {path : Path}
  {es es' : List (Text × Node)}

theorem SameShapeAt.stat_eq_or (h : d.SameShapeAt d' path) :
    d'.stat path = d.stat path ∨
      ∃ below below', d.stat path = .ok (.folder below) ∧ d'.stat path = .ok (.folder below') := by
  rw [SameShapeAt] at h
  cases hstat' : d'.stat path with
  | error e =>
    rw [hstat'] at h
    cases hstat : d.stat path with
    | error e' =>
      rw [hstat] at h
      exact .inl (congrArg _ (Except.error.inj h))
    | ok m =>
      rw [hstat] at h
      cases h
  | ok m =>
    rw [hstat'] at h
    cases hstat : d.stat path with
    | error e =>
      rw [hstat] at h
      cases h
    | ok m' =>
      rw [hstat] at h
      have hshape : m.shape = m'.shape := Except.ok.inj h
      cases m' with
      | file bytes => exact .inl (congrArg _ (Node.shape_eq_file_iff.mp hshape))
      | link target => exact .inl (congrArg _ (Node.shape_eq_link_iff.mp hshape))
      | folder below =>
        cases m with
        | folder below' => exact .inr ⟨below, below', rfl, rfl⟩
        | file bytes => cases hshape
        | link target => cases hshape

theorem SameShapeAt.contents_eq (h : d.SameShapeAt d' path) : d'.contents path = d.contents path := by
  obtain hsame | ⟨below, below', hstat, hstat'⟩ := h.stat_eq_or
  · rw [contents, contents, hsame]
  · rw [contents, contents, hstat, hstat']

theorem SameShapeAt.entryKind_eq {name : Text} {n : Node} (h : d.SameShapeAt d' (path.child name)) :
    d'.entryKind path extension name n = d.entryKind path extension name n := by
  cases n with
  | file bytes => rfl
  | folder below => rfl
  | link target =>
    simp only [entryKind]
    obtain hsame | ⟨below, below', hstat, hstat'⟩ := h.stat_eq_or
    · rw [hsame]
    · rw [hstat, hstat']

/-- The names of the source files among some entries. -/
def sourcesAmong (d : Disk) (path : Path) (extension : Text) (es : List (Text × Node)) :
    Except FileFault (List Text) :=
  (d.entryKinds path extension es).map (namesOf · .source)

theorem sourcesAmong_cons (d : Disk) (path : Path) (extension name : Text) (n : Node)
    (es : List (Text × Node)) :
    d.sourcesAmong path extension ((name, n) :: es) =
      d.entryKind path extension name n >>= fun kind =>
        (d.sourcesAmong path extension es).map fun names =>
          if kind = .source then name :: names else names := by
  rw [sourcesAmong, sourcesAmong, entryKinds]
  cases d.entryKind path extension name n with
  | error e => rfl
  | ok kind =>
    rw [ok_bind, ok_bind]
    cases d.entryKinds path extension es with
    | error e => rfl
    | ok kinds =>
      by_cases hkind : kind = .source
      · simp [Except.map, namesOf, hkind]
      · simp [Except.map, namesOf, hkind]

theorem exists_entry_of_mem_sourcesAmong {names : List Text}
    (h : d.sourcesAmong path extension es = .ok names) {name : Text} (hname : name ∈ names) :
    ∃ n, (name, n) ∈ es ∧ ∀ below, n ≠ .folder below := by
  obtain ⟨kinds, hkinds, rfl⟩ := map_eq_ok_iff.mp h
  obtain ⟨n, hmem, hkind⟩ := (mem_kinds_iff hkinds).mp (mem_namesOf_iff.mp hname)
  refine ⟨n, hmem, ?_⟩
  rintro below rfl
  cases hkind

/-- What is added is no source file. -/
theorem Adds.sourcesAmong_eq (h : Adds d d' extension path es es') :
    d'.sourcesAmong path extension es' = d.sourcesAmong path extension es := by
  induction h with
  | nil => rfl
  | kept _ hsame _ ih => rw [sourcesAmong_cons, sourcesAmong_cons, hsame.entryKind_eq, ih]
  | folder _ _ _ ih => rw [sourcesAmong_cons, sourcesAmong_cons, ih]; rfl
  | @added path name n es es' kind hkind hsource _ _ ih =>
    rw [sourcesAmong_cons, hkind, ok_bind, ih]
    cases d.sourcesAmong path extension es with
    | error e => rfl
    | ok names => simp [Except.map, hsource]

theorem Adds.sameShapeAt (h : Adds d d' extension path es es') {name : Text} {n : Node}
    (hmem : (name, n) ∈ es) (hn : ∀ below, n ≠ .folder below) :
    d.SameShapeAt d' (path.child name) := by
  induction h with
  | nil => cases hmem
  | kept _ hsame _ ih =>
    obtain heq | hmem := List.mem_cons.mp hmem
    · obtain ⟨rfl, rfl⟩ := Prod.mk.inj heq
      exact hsame
    · exact ih hmem
  | folder _ _ _ ih =>
    obtain heq | hmem := List.mem_cons.mp hmem
    · obtain ⟨rfl, rfl⟩ := Prod.mk.inj heq
      exact absurd rfl (hn _)
    · exact ih hmem
  | added _ _ _ _ ih => exact ih hmem

/-- The report on a folder with the names of its source files at hand. -/
theorem reportOnFolder_eq (d : Disk) (c : Settings) (path : Path) (es : List (Text × Node)) :
    d.reportOnFolder c path (.folder es) =
      (do checkPath path; d.sourcesAmong path c.sourceExtension es).mapError (.cannotList path) >>=
        fun sources => do
          let classes ← d.reportOnClasses c path sources
          let subpackages ← d.reportOnSubfolders c path es
          return .mk (d.baseName path) classes subpackages := by
  rw [reportOnFolder, listEntries]
  cases checkPath path with
  | error e => rfl
  | ok _ =>
    rw [ok_bind, ok_bind, listing, sourcesAmong]
    cases d.entryKinds path c.sourceExtension es <;> rfl

theorem Adds.reportOnFolder_eq_of (h : Adds d d' c.sourceExtension path es es')
    (hhere : d'.here = d.here)
    (hsub : d'.reportOnSubfolders c path es' = d.reportOnSubfolders c path es) :
    d'.reportOnFolder c path (.folder es') = d.reportOnFolder c path (.folder es) := by
  rw [reportOnFolder_eq, reportOnFolder_eq, h.sourcesAmong_eq, hsub, baseName, baseName, hhere]
  cases checkPath path with
  | error e => rfl
  | ok _ =>
    rw [ok_bind]
    cases hsources : d.sourcesAmong path c.sourceExtension es with
    | error e => rfl
    | ok sources =>
      have hclasses : d'.reportOnClasses c path sources = d.reportOnClasses c path sources := by
        rw [reportOnClasses_eq_mapM, reportOnClasses_eq_mapM]
        refine mapM_congr fun name hname => ?_
        obtain ⟨n, hmem, hn⟩ := exists_entry_of_mem_sourcesAmong hsources hname
        rw [reportOnClass, reportOnClass, readSource, readSource, (h.sameShapeAt hmem hn).contents_eq]
      simp only [mapError_ok, ok_bind, hclasses]

/-- Entries that do not count change no report. -/
theorem Adds.reportOnSubfolders_eq (h : Adds d d' c.sourceExtension path es es')
    (hhere : d'.here = d.here) :
    d'.reportOnSubfolders c path es' = d.reportOnSubfolders c path es := by
  generalize hextension : c.sourceExtension = extension at h
  induction h with
  | nil => rfl
  | kept hn _ _ ih =>
    rw [reportOnSubfolders_cons_of_not_folder _ _ _ _ hn,
      reportOnSubfolders_cons_of_not_folder _ _ _ _ hn, ih]
  | folder hbelow _ ihbelow ih =>
    subst hextension
    rw [reportOnSubfolders, reportOnSubfolders, hbelow.reportOnFolder_eq_of hhere ihbelow, ih]
  | added hkind _ hfolder _ ih =>
    rw [reportOnSubfolders_cons_of_not_folder, ih]
    rintro below rfl
    exact hfolder (Except.ok.inj hkind).symm

/-- An entry stays as it is, or it is a folder and others have been added to it. -/
def AddsTo (d d' : Disk) (extension : Text) (path : Path) (e e' : Text × Node) : Prop :=
  ((∀ below, e.2 ≠ .folder below) ∧ e' = e ∧ d.SameShapeAt d' (path.child e.1)) ∨
    ∃ below below', e.2 = .folder below ∧ e' = (e.1, .folder below') ∧
      Adds d d' extension (path.child e.1) below below'

theorem Adds.of_forall {f : Text × Node → Text × Node}
    (h : ∀ e ∈ es, d.AddsTo d' extension path e (f e)) :
    Adds d d' extension path es (es.map f) := by
  induction es with
  | nil => exact .nil
  | cons e es ih =>
    have hrest := ih fun e' he' => h e' (List.mem_cons_of_mem e he')
    obtain ⟨name, n⟩ := e
    rw [List.map_cons]
    obtain ⟨hn, heq, hsame⟩ | ⟨below, below', rfl, heq, hbelow⟩ := h _ List.mem_cons_self
    · rw [heq]
      exact .kept hn hsame hrest
    · rw [heq]
      exact .folder hbelow hrest

/-- All that is in and below a folder, and is no folder itself, is the same on two disks. -/
def SameBelow (d d' : Disk) (path : Path) (es : List (Text × Node)) : Prop :=
  ∀ place m, (Node.folder es).at? place = some m → (∀ below, m ≠ .folder below) →
    d.SameShapeAt d' (path.below place)

theorem SameBelow.entry (hsame : d.SameBelow d' path es) (hd : (Node.folder es).HasDistinctNames)
    {name : Text} {n : Node} (hn : (name, n) ∈ es) (hfolder : ∀ below, n ≠ .folder below) :
    d.SameShapeAt d' (path.child name) := by
  have hat : (Node.folder es).at? [name] = some n :=
    (Node.at?_cons_eq_some_iff hd.nodup).mpr ⟨n, hn, rfl⟩
  exact hsame [name] n hat hfolder

theorem SameBelow.folder (hsame : d.SameBelow d' path es)
    (hd : (Node.folder es).HasDistinctNames) {name : Text} {below : List (Text × Node)}
    (hbelow : (name, Node.folder below) ∈ es) : d.SameBelow d' (path.child name) below := by
  intro place m hm hfolder
  have hat : (Node.folder es).at? (name :: place) = some m :=
    (Node.at?_cons_eq_some_iff hd.nodup).mpr ⟨_, hbelow, hm⟩
  rw [← Path.below_cons]
  exact hsame (name :: place) m hat hfolder

theorem SameBelow.addsTo (hsame : d.SameBelow d' path es) (hd : (Node.folder es).HasDistinctNames)
    {e : Text × Node} (he : e ∈ es)
    (hbelow : ∀ below, e.2 = .folder below → Adds d d' extension (path.child e.1) below below) :
    d.AddsTo d' extension path e e := by
  obtain ⟨name, n⟩ := e
  cases n with
  | file bytes => exact .inl ⟨by simp, rfl, hsame.entry hd he (by simp)⟩
  | link target => exact .inl ⟨by simp, rfl, hsame.entry hd he (by simp)⟩
  | folder below => exact .inr ⟨below, below, rfl, rfl, hbelow below rfl⟩

/-- Nothing need be added. -/
theorem adds_refl (es : List (Text × Node)) (path : Path) (hsame : d.SameBelow d' path es)
    (hd : (Node.folder es).HasDistinctNames) : Adds d d' extension path es es := by
  have hall : Adds d d' extension path es (es.map id) := by
    refine .of_forall fun e he => hsame.addsTo hd he fun below hbelow => ?_
    have hmem : (e.1, Node.folder below) ∈ es := hbelow ▸ he
    have hlt := Node.sizeOf_lt_of_mem_subfolders (Node.mem_subfolders_iff.mpr hmem)
    exact adds_refl below (path.child e.1) (hsame.folder hd hmem) (hd.entry hmem)
  rwa [List.map_id] at hall
termination_by sizeOf es

theorem Adds.append_added (h : Adds d d' extension path es es') {name : Text} {n : Node}
    {kind : EntryKind} (hkind : d'.entryKind path extension name n = .ok kind)
    (hsource : kind ≠ .source) (hfolder : kind ≠ .folder) :
    Adds d d' extension path es (es' ++ [(name, n)]) := by
  induction h with
  | nil => exact .added hkind hsource hfolder .nil
  | kept hn hsame _ ih => exact .kept hn hsame (ih hkind)
  | folder hbelow _ _ ih => exact .folder hbelow (ih hkind)
  | added hkind' hsource' hfolder' _ ih => exact .added hkind' hsource' hfolder' (ih hkind)

/-- An entry that is put into a folder, somewhere below another, and does not count. -/
theorem exists_adds_updateFolder {sub : Place} {below : List (Text × Node)} {name : Text} {n : Node}
    {kind : EntryKind} (hsame : d.SameBelow d' path es) (hd : (Node.folder es).HasDistinctNames)
    (hbelow : (Node.folder es).at? sub = some (.folder below))
    (hfresh : Node.find? below name = none)
    (hkind : d'.entryKind (path.below sub) extension name n = .ok kind) (hsource : kind ≠ .source)
    (hfolder : kind ≠ .folder) :
    ∃ es', (Node.folder es).updateFolder sub (Node.setEntry · name n) = .folder es' ∧
      Adds d d' extension path es es' := by
  induction sub generalizing path es with
  | nil =>
    obtain rfl := Node.folder.inj (Option.some.inj hbelow)
    rw [Path.below_nil] at hkind
    have hnot : ¬ es.any (·.1 = name) = true := fun hany =>
      Node.any_eq_true_iff_find?.mp hany hfresh
    refine ⟨es ++ [(name, n)], ?_, (adds_refl es path hsame hd).append_added hkind hsource hfolder⟩
    rw [Node.updateFolder, Node.setEntry, if_neg hnot]
  | cons first sub ih =>
    rw [Node.at?_cons, Option.bind_eq_some_iff] at hbelow
    obtain ⟨m, hfind, hm⟩ := hbelow
    obtain ⟨inner, rfl⟩ := Node.exists_entries_of_at? hm
    have hentry := (Node.find?_eq_some_iff hd.nodup).mp hfind
    rw [Path.below_cons] at hkind
    obtain ⟨inner', hinner', hadds⟩ := ih (hsame.folder hd hentry) (hd.entry hentry) hm hkind
    have hany : es.any (·.1 = first) = true := by
      rw [Node.any_eq_true_iff_find?, hfind]
      simp
    refine ⟨es.map fun e => if e.1 = first then (first, .folder inner') else e, ?_, ?_⟩
    · rw [Node.updateFolder_cons hfind, hinner', Node.setEntry, if_pos hany]
    · refine .of_forall fun e he => ?_
      by_cases hfirst : e.1 = first
      · have hfolder : e.2 = .folder inner := by
          have hsecond := (Node.find?_eq_some_iff hd.nodup).mpr he
          rw [hfirst, hfind] at hsecond
          exact (Option.some.inj hsecond).symm
        rw [if_pos hfirst]
        exact .inr ⟨inner, inner', hfolder, by rw [hfirst], hfirst ▸ hadds⟩
      · rw [if_neg hfirst]
        refine hsame.addsTo hd he fun below hbelow => ?_
        have hmem : (e.1, Node.folder below) ∈ es := hbelow ▸ he
        exact adds_refl below (path.child e.1) (hsame.folder hd hmem) (hd.entry hmem)

/-- An entry that has nothing to do with the analysis of the package at a path: it is to be put into a
folder in or below that of the package, under a new name that is not one of a source file; it is no
folder, and nobody who follows the path of a link in the package looks for it. -/
structure IsUnrelated (d : Disk) (extension : Text) (path : Path) (package sub : Place)
    (name : Text) (n : Node) : Prop where
  located : ∃ entries, d.locate true path = .ok (.taken package (.folder entries))
  fresh : ∃ entries, d.root.at? (package ++ sub) = some (.folder entries) ∧
    Node.find? entries name = none
  isEntryName : IsEntryName name
  not_source : hasExtension extension name = false
  not_folder : ∀ entries, n ≠ .folder entries
  not_sought : ∀ place target, d.root.at? (package ++ place) = some (.link target) →
    ¬ d.Seeks (path.below place) (package ++ sub) name

/-- One can tell what an entry is: it is no link, or a link that leads to something or nowhere. -/
def IsFollowed (d : Disk) (path : Path) (n : Node) : Prop :=
  ∀ target, n = .link target → (∃ m, d.stat path = .ok m) ∨ d.stat path = .error .notFound

theorem exists_entryKind_of_isFollowed {name : Text} {n : Node}
    (hn : ∀ entries, n ≠ .folder entries) (hsource : hasExtension extension name = false)
    (h : d.IsFollowed (path.child name) n) :
    ∃ kind, d.entryKind path extension name n = .ok kind ∧ kind ≠ .source ∧ kind ≠ .folder := by
  cases n with
  | folder entries => exact absurd rfl (hn entries)
  | file bytes => exact ⟨.other, by simp [entryKind, hsource], by simp, by simp⟩
  | link target =>
    obtain ⟨m, hm⟩ | hnone := h target rfl
    · cases m with
      | folder entries => exact ⟨.linkedFolder, by simp [entryKind, hm], by simp, by simp⟩
      | file bytes => exact ⟨.other, by simp [entryKind, hm, hsource], by simp, by simp⟩
      | link target => exact ⟨.other, by simp [entryKind, hm, hsource], by simp, by simp⟩
    · exact ⟨.other, by simp [entryKind, hnone], by simp, by simp⟩

theorem isFollowed_of_entryKind {name : Text} {n : Node} {kind : EntryKind}
    (h : d.entryKind path extension name n = .ok kind) : d.IsFollowed (path.child name) n := by
  rintro target rfl
  simp only [entryKind] at h
  split at h
  · exact .inl ⟨_, ‹_›⟩
  · exact .inl ⟨_, ‹_›⟩
  · exact .inr ‹_›
  · cases h

/-- Where a report succeeds, one can tell of every entry in and below the folder what it is. -/
theorem exists_entryKind_of_reportOnFolder {r : PackageReport} {sub : Place}
    {below : List (Text × Node)} {name : Text} {n : Node}
    (h : d.reportOnFolder c path (.folder es) = .ok r)
    (hbelow : (Node.folder es).at? sub = some (.folder below)) (hmem : (name, n) ∈ below) :
    ∃ kind, d.entryKind (path.below sub) c.sourceExtension name n = .ok kind := by
  induction sub generalizing path es r with
  | nil =>
    obtain rfl := Node.folder.inj (Option.some.inj hbelow)
    obtain ⟨listing, hlisting, _⟩ := reportOnFolder_eq_ok h
    obtain ⟨kinds, hkinds, _⟩ := exists_kinds_of_listEntries hlisting
    obtain ⟨kind, _, _, hkind⟩ := exists_of_forall₂_left (entryKinds_eq_ok hkinds) hmem
    rw [Path.below_nil]
    exact ⟨kind.2, hkind⟩
  | cons first sub ih =>
    rw [Node.at?_cons, Option.bind_eq_some_iff] at hbelow
    obtain ⟨m, hfind, hm⟩ := hbelow
    obtain ⟨inner, rfl⟩ := Node.exists_entries_of_at? hm
    obtain ⟨_, _, _, hsubpackages⟩ := reportOnFolder_eq_ok h
    have hinner := Node.mem_subfolders_iff.mpr (Node.mem_of_find? hfind)
    obtain ⟨q, _, hq⟩ := exists_of_forall₂_left hsubpackages hinner
    rw [Path.below_cons]
    exact ih hq hm

section

variable {package sub : Place} {name : Text} {n : Node}

/-- All that was in the package before stays as it was. -/
theorem IsUnrelated.sameBelow (hnames : HasEntryNames d.root)
    (h : d.IsUnrelated extension path package sub name n) {entries : List (Text × Node)}
    (hlocated : d.locate true path = .ok (.taken package (.folder entries))) :
    d.SameBelow (d.place (package ++ sub) name n) path entries := by
  intro place m hm hfolder
  obtain ⟨_, hpackage, links, hsteps⟩ := exists_steps_of_locate hlocated
  obtain ⟨below, hbelow, hfresh⟩ := h.fresh
  have hat : d.root.at? (package ++ place) = some m := by
    rw [Node.at?_append, hpackage]
    exact hm
  have hstart := not_prefix_start hbelow hfresh hsteps hpackage
  refine shape_stat_place (p := path.below place) hbelow hstart ?_
  by_cases hlink : ∃ target, m = .link target
  · obtain ⟨target, rfl⟩ := hlink
    exact h.not_sought place target hat
  · have hon : d.Steps true ⟨links, package, place⟩ ⟨links, package ++ place, []⟩ :=
      steps_of_at? hnames hat (fun target htarget => hlink ⟨target, htarget⟩) links
    exact not_seeks_of_steps hbelow hfresh h.isEntryName ((hsteps.append place).trans hon)

theorem IsUnrelated.openFolder_place {entries entries' : List (Text × Node)}
    (h : d.IsUnrelated extension path package sub name n)
    (hlocated : d.locate true path = .ok (.taken package (.folder entries)))
    (hentries : (Node.folder entries).updateFolder sub (Node.setEntry · name n) =
      .folder entries') :
    (d.place (package ++ sub) name n).openFolder path = .ok entries' := by
  obtain ⟨hcheck, hpackage, links, hsteps⟩ := exists_steps_of_locate hlocated
  obtain ⟨below, hbelow, hfresh⟩ := h.fresh
  have hplace : (d.place (package ++ sub) name n).root.at? package = some (.folder entries') := by
    rw [← hentries]
    exact Node.at?_updateFolder_above hpackage sub _
  have hseeks := not_seeks_of_steps hbelow hfresh h.isEntryName hsteps
  obtain ⟨hsteps', _⟩ := Steps.place (n := n) hbelow hsteps
    (not_prefix_start hbelow hfresh hsteps hpackage)
    fun u _ hu _ _ hat => hseeks (.of_isAt hu hat)
  exact openFolder_of_stat (stat_of_steps hcheck hplace hsteps')

/-- The report on a package stays the same, unless one cannot tell what the new entry is; then there
is none. -/
theorem IsUnrelated.reportOnPackage_cases (hd : d.root.HasDistinctNames)
    (hnames : HasEntryNames d.root)
    (h : d.IsUnrelated c.sourceExtension path package sub name n) :
    ((d.place (package ++ sub) name n).IsFollowed ((path.below sub).child name) n →
      (d.place (package ++ sub) name n).reportOnPackage c path = d.reportOnPackage c path) ∧
    (¬ (d.place (package ++ sub) name n).IsFollowed ((path.below sub).child name) n →
      ∃ e, (d.place (package ++ sub) name n).reportOnPackage c path = .error e) := by
  obtain ⟨entries, hlocated⟩ := h.located
  obtain ⟨below, hbelow, hfresh⟩ := h.fresh
  obtain ⟨hcheck, hpackage, links, hsteps⟩ := exists_steps_of_locate hlocated
  have hopen : d.openFolder path = .ok entries :=
    openFolder_of_stat (stat_of_steps hcheck hpackage hsteps)
  have hat : (Node.folder entries).at? sub = some (.folder below) := by
    rw [Node.at?_append, hpackage] at hbelow
    exact hbelow
  constructor
  · intro hfollowed
    obtain ⟨kind, hkind, hsource, hfolder⟩ :=
      exists_entryKind_of_isFollowed h.not_folder h.not_source hfollowed
    obtain ⟨entries', hentries', hadds⟩ := exists_adds_updateFolder
      (h.sameBelow hnames hlocated) (hd.at? hpackage) hat hfresh hkind hsource hfolder
    rw [reportOnPackage, reportOnPackage, hopen, h.openFolder_place hlocated hentries']
    exact hadds.reportOnFolder_eq_of rfl (hadds.reportOnSubfolders_eq rfl)
  · intro hnot
    obtain ⟨entries', hentries'⟩ : ∃ entries', (Node.folder entries).updateFolder sub
        (Node.setEntry · name n) = .folder entries' := by
      cases sub with
      | nil => exact ⟨_, by rw [Node.updateFolder]⟩
      | cons first sub =>
        rw [Node.at?_cons, Option.bind_eq_some_iff] at hat
        obtain ⟨m, hfind, _⟩ := hat
        exact ⟨_, Node.updateFolder_cons hfind sub _⟩
    have hnew : (Node.folder entries').at? sub = some (.folder (Node.setEntry below name n)) := by
      have habove := Node.at?_updateFolder_above hat [] (Node.setEntry · name n)
      rwa [List.append_nil, hentries', Node.updateFolder] at habove
    have hmem : (name, n) ∈ Node.setEntry below name n :=
      Node.mem_of_find? (by rw [Node.find?_setEntry, if_pos rfl])
    rw [reportOnPackage, h.openFolder_place hlocated hentries']
    cases hreport : (d.place (package ++ sub) name n).reportOnFolder c path (.folder entries') with
    | error e => exact ⟨e, hreport⟩
    | ok r =>
      obtain ⟨kind, hkind⟩ := exists_entryKind_of_reportOnFolder hreport hnew hmem
      exact absurd (isFollowed_of_entryKind hkind) hnot

end

end Disk

/-- An entry that has nothing to do with a package leaves the outcome of its analysis as it is, unless
it is a link that cannot be followed; then no analysis succeeds any more. -/
theorem sameValue_analyzePackage_place_iff {d : Disk} {c : Settings} {path : Path}
    {package sub : Place} {name : Text} {n : Node} (hd : d.root.HasDistinctNames)
    (hnames : Disk.HasEntryNames d.root)
    (h : d.IsUnrelated c.sourceExtension path package sub name n) :
    Job.SameValue (analyzePackage (d.place (package ++ sub) name n) c path).outcome.1
        (analyzePackage d c path).outcome.1 ↔
      (d.place (package ++ sub) name n).IsFollowed ((path.below sub).child name) n ∨
        ∃ e, (analyzePackage d c path).outcome.1 = .error e := by
  have hsame := sameValue_analyzePackage d c path
  have hsame' := sameValue_analyzePackage (d.place (package ++ sub) name n) c path
  obtain ⟨hkept, hlost⟩ := h.reportOnPackage_cases hd hnames
  by_cases hfollowed : (d.place (package ++ sub) name n).IsFollowed ((path.below sub).child name) n
  · refine iff_of_true (hsame'.trans ?_) (.inl hfollowed)
    rw [hkept hfollowed]
    exact hsame.symm
  · obtain ⟨e, he⟩ := hlost hfollowed
    rw [Job.SameValue, he] at hsame'
    rw [Job.SameValue, hsame', or_iff_right hfollowed]
    cases (analyzePackage d c path).outcome.1 with
    | error e' => exact iff_of_true rfl ⟨e', rfl⟩
    | ok r => exact iff_of_false (by simp [Except.toOption]) (by simp)

/-- A package with one class. -/
def lonelyDisk : Disk where
  root := .folder [("p", .folder [("A.java", .file [])])]
  here := []

theorem at?_folder_ne_link {entries : List (Text × Node)} {target : Text}
    (h : ∀ entry ∈ entries, ∀ place, entry.2.at? place ≠ some (.link target)) (place : Place) :
    (Node.folder entries).at? place ≠ some (.link target) := by
  cases place with
  | nil => nofun
  | cons first place =>
    intro hat
    rw [Node.at?_cons, Option.bind_eq_some_iff] at hat
    obtain ⟨n, hfind, hn⟩ := hat
    exact h _ (Node.mem_of_find? hfind) place hn

theorem at?_file_ne_link (bytes : List UInt8) (target : Text) (place : Place) :
    (Node.file bytes).at? place ≠ some (.link target) := by
  cases place <;> nofun

theorem at?_lonelyDisk_ne_link (place : Place) (target : Text) :
    lonelyDisk.root.at? place ≠ some (.link target) := by
  refine at?_folder_ne_link ?_ place
  simp only [List.forall_mem_singleton]
  refine at?_folder_ne_link ?_
  simp only [List.forall_mem_singleton]
  exact at?_file_ne_link [] target

theorem locate_lonelyDisk : lonelyDisk.locate true (.ofText "p") =
    .ok (.taken ["p"] (.folder [("A.java", .file [])])) := by cbv

theorem isEntryName_loop : Disk.IsEntryName "loop" :=
  ⟨by decide, by decide, by decide, by decide⟩

theorem fresh_loop : Node.find? [("A.java", .file [])] "loop" = none := by decide

theorem isUnrelated_loop :
    lonelyDisk.IsUnrelated ({} : Settings).sourceExtension (.ofText "p") ["p"] [] "loop"
      (.link "loop") where
  located := ⟨_, locate_lonelyDisk⟩
  fresh := ⟨_, rfl, fresh_loop⟩
  isEntryName := isEntryName_loop
  not_source := by decide
  not_folder := nofun
  not_sought place target hat := absurd hat (at?_lonelyDisk_ne_link _ target)

theorem sameValue_analyzePackage_place_iff_loop :
    lonelyDisk.root.HasDistinctNames ∧ Disk.HasEntryNames lonelyDisk.root ∧
    lonelyDisk.IsUnrelated ({} : Settings).sourceExtension (.ofText "p") ["p"] [] "loop"
      (.link "loop") ∧
    (Job.SameValue
        (analyzePackage (lonelyDisk.place ((["p"] : Place) ++ []) "loop" (.link "loop")) {}
          (.ofText "p")).outcome.1
        (analyzePackage lonelyDisk {} (.ofText "p")).outcome.1 ↔
      (lonelyDisk.place ((["p"] : Place) ++ []) "loop" (.link "loop")).IsFollowed
          (((Path.ofText "p").below []).child "loop") (.link "loop") ∨
        ∃ e, (analyzePackage lonelyDisk {} (.ofText "p")).outcome.1 = .error e) := by
  have hd : lonelyDisk.root.HasDistinctNames := by
    simp only [lonelyDisk, Node.hasDistinctNames_folder_iff, List.forall_mem_cons,
      List.not_mem_nil, false_implies, implies_true, Node.hasDistinctNames_file, and_true]
    decide
  have hnames : Disk.HasEntryNames lonelyDisk.root := by
    refine Disk.hasEntryNames_folder ?_
    simp only [List.forall_mem_singleton]
    refine ⟨⟨by decide, by decide, by decide, by decide⟩, Disk.hasEntryNames_folder ?_⟩
    simp only [List.forall_mem_singleton]
    exact ⟨⟨by decide, by decide, by decide, by decide⟩, Disk.hasEntryNames_file []⟩
  have hiff := sameValue_analyzePackage_place_iff hd hnames isUnrelated_loop
  exact ⟨hd, hnames, isUnrelated_loop, hiff⟩

/-- A link to itself, though it is neither a source file nor a folder, ends the analysis. -/
theorem not_sameValue_analyzePackage_loop :
    lonelyDisk.IsUnrelated ({} : Settings).sourceExtension (.ofText "p") ["p"] [] "loop"
      (.link "loop") ∧
    ¬ Job.SameValue
      (analyzePackage (lonelyDisk.place ((["p"] : Place) ++ []) "loop" (.link "loop")) {}
        (.ofText "p")).outcome.1
      (analyzePackage lonelyDisk {} (.ofText "p")).outcome.1 := by
  refine ⟨isUnrelated_loop, ?_⟩
  have hfails : (analyzePackage (lonelyDisk.place ((["p"] : Place) ++ []) "loop" (.link "loop")) {}
      (.ofText "p")).outcome.1 = .error (.cannotList (.ofText "p") .tooManyLinks) := by cbv
  let report : ClassReport :=
    { className := "A", packageName := "java", declaredPackage := none, dependencies := .empty }
  have hsucceeds : (analyzePackage lonelyDisk {} (.ofText "p")).outcome.1 =
      .ok (.mk "p" [report] []) := by cbv
  rw [hfails, hsucceeds]
  simp [Job.SameValue, Except.toOption]

end TypeAtlas
