import TypeAtlas.Proofs.Files.Shapes

namespace TypeAtlas

/-- One folder, a node itself or further below in it, has its entries in another order. -/
inductive Node.Reorders : Node → Node → Prop
  | here {entries entries' : List (Text × Node)} :
      entries.Perm entries' → Reorders (.folder entries) (.folder entries')
  | inside {before after : List (Text × Node)} {name : Text} {n n' : Node} :
      Reorders n n' →
        Reorders (.folder (before ++ (name, n) :: after)) (.folder (before ++ (name, n') :: after))

/-- Disks that are the same but for the order in which the entries of folders are listed. -/
structure Disk.Reorders (d d' : Disk) : Prop where
  here : d'.here = d.here
  root : Relation.ReflTransGen Node.Reorders d.root d'.root

namespace Node

theorem Reorders.hasDistinctNames {n n' : Node} (h : Reorders n n') (hn : n.HasDistinctNames) :
    n'.HasDistinctNames := by
  induction h with
  | here hperm =>
    rw [hasDistinctNames_folder_iff] at hn ⊢
    obtain ⟨hnodup, hentries⟩ := hn
    exact ⟨(hperm.map _).nodup_iff.mp hnodup, fun e he => hentries e (hperm.mem_iff.mpr he)⟩
  | @inside before after name n n' _ ih =>
    rw [hasDistinctNames_folder_iff, List.forall_mem_append, List.forall_mem_cons] at hn ⊢
    obtain ⟨hnodup, hbefore, hinside, hafter⟩ := hn
    refine ⟨?_, hbefore, ih hinside, hafter⟩
    rw [List.map_append, List.map_cons] at hnodup ⊢
    exact hnodup

/-- Where names are distinct, the order of the entries does not matter when one looks for an entry.
-/
theorem find?_perm {entries entries' : List (Text × Node)} (hperm : entries.Perm entries')
    (hnodup : (entries.map (·.1)).Nodup) (name : Text) :
    find? entries' name = find? entries name := by
  have hnodup' : (entries'.map (·.1)).Nodup := (hperm.map _).nodup_iff.mp hnodup
  apply Option.ext
  intro n
  rw [find?_eq_some_iff hnodup, find?_eq_some_iff hnodup', hperm.mem_iff]

/-- At every place there is what was there before, but for the order in a folder. -/
theorem Reorders.shape_at? {n n' : Node} (h : Reorders n n') (hn : n.HasDistinctNames)
    (place : Place) : (n'.at? place).map shape = (n.at? place).map shape := by
  induction h generalizing place with
  | here hperm =>
    cases place with
    | nil => rfl
    | cons name rest => rw [at?_cons, at?_cons, find?_perm hperm hn.nodup]
  | @inside before after name n n' _ ih =>
    cases place with
    | nil => rfl
    | cons other rest =>
      rw [at?_cons, at?_cons, find?_append, find?_append, find?_cons, find?_cons]
      cases find? before other with
      | some m => rfl
      | none =>
        rw [Option.none_or, Option.none_or]
        split
        · have hmem : (name, n) ∈ before ++ (name, n) :: after := by simp
          exact ih (hn.entry hmem) rest
        · rfl

end Node

namespace Disk.Reorders

variable {d d' : Disk}

theorem hasDistinctNames_and_shape (h : d.Reorders d') (hd : d.root.HasDistinctNames) :
    d'.root.HasDistinctNames ∧ ∀ place,
      (d'.root.at? place).map Node.shape = (d.root.at? place).map Node.shape := by
  obtain ⟨_, hroot⟩ := h
  generalize d'.root = n at hroot
  induction hroot with
  | refl => exact ⟨hd, fun _ => rfl⟩
  | tail _ hstep ih =>
    obtain ⟨hnames, hshape⟩ := ih
    exact ⟨hstep.hasDistinctNames hnames, fun place =>
      (hstep.shape_at? hnames place).trans (hshape place)⟩

theorem sameShapes (h : d.Reorders d') (hd : d.root.HasDistinctNames) (s : Stage) :
    d.SameShapes d' s :=
  fun place _ => (h.hasDistinctNames_and_shape hd).2 place

theorem start_eq (h : d.Reorders d') (p : Path) : d'.start p = d.start p := by
  rw [start, start, h.here]

/-- In which order the entries of folders are listed does not matter to who follows a path. -/
theorem shape_stat (h : d.Reorders d') (hd : d.root.HasDistinctNames) (p : Path) :
    (d'.stat p).map Node.shape = (d.stat p).map Node.shape :=
  shape_stat_eq (h.start_eq p) fun u _ => h.sameShapes hd u

/-- In the folder at a path there is the same at every place, but for the order in a folder. -/
theorem exists_openFolder (h : d.Reorders d') (hd : d.root.HasDistinctNames) {p : Path}
    {entries : List (Text × Node)} (hopen : d.openFolder p = .ok entries) :
    ∃ entries', d'.openFolder p = .ok entries' ∧ ∀ place,
      ((Node.folder entries').at? place).map Node.shape =
        ((Node.folder entries).at? place).map Node.shape := by
  obtain ⟨folder, hlocate⟩ := exists_locate_of_openFolder hopen
  obtain ⟨hcheck, hfolder, links, hsteps⟩ := exists_steps_of_locate hlocate
  obtain ⟨_, hshape⟩ := h.hasDistinctNames_and_shape hd
  obtain ⟨entries', hm⟩ := Node.exists_folder_of_map_shape (hshape folder) hfolder
  have hsteps' := hsteps.of_shapes fun u _ => h.sameShapes hd u
  rw [← h.start_eq p] at hsteps'
  refine ⟨entries', openFolder_of_stat (stat_of_steps hcheck hm hsteps'), fun place => ?_⟩
  have hplace := hshape (folder ++ place)
  rwa [Node.at?_append, Node.at?_append, hfolder, hm] at hplace

end Disk.Reorders

end TypeAtlas
