import Mathlib.Data.List.Nodup
import TypeAtlas.Files.Disk
import TypeAtlas.Proofs.Except

namespace TypeAtlas

/-- The path that leads from a path through further names. -/
def Path.below (p : Path) (names : List Text) : Path :=
  { p with names := p.names ++ names }

theorem Path.below_nil (p : Path) : p.below [] = p := by
  simp [below]

theorem Path.below_cons (p : Path) (name : Text) (names : List Text) :
    p.below (name :: names) = (p.child name).below names := by
  simp [below, child]

theorem Path.below_concat (p : Path) (names : List Text) (name : Text) :
    p.below (names ++ [name]) = (p.below names).child name := by
  simp [below, child]

theorem Path.below_injective (p : Path) : Function.Injective p.below := by
  intro names others h
  exact List.append_cancel_left (congrArg Path.names h)

namespace Node

theorem at?_cons (entries : List (Text × Node)) (name : Text) (rest : Place) :
    (Node.folder entries).at? (name :: rest) = (find? entries name).bind (·.at? rest) := rfl

theorem at?_append (n : Node) (place rest : Place) :
    n.at? (place ++ rest) = (n.at? place).bind (·.at? rest) := by
  induction place generalizing n with
  | nil => rfl
  | cons name place ih =>
    cases n with
    | folder entries =>
      rw [List.cons_append, at?_cons, at?_cons]
      cases find? entries name with
      | none => rfl
      | some m => exact ih m
    | file bytes => rfl
    | link target => rfl

theorem sizeOf_lt_of_mem {entries : List (Text × Node)} {name : Text} {n : Node}
    (h : (name, n) ∈ entries) : sizeOf n < sizeOf (Node.folder entries) := by
  have hmem := List.sizeOf_lt_of_mem h
  simp only [Prod.mk.sizeOf_spec] at hmem
  simp only [folder.sizeOf_spec]
  omega

/-- What holds of a folder if it holds of its entries holds of all nodes, if it does of files and
links. -/
theorem induction_entries {P : Node → Prop} (file : ∀ bytes, P (.file bytes))
    (link : ∀ target, P (.link target))
    (folder : ∀ entries, (∀ name n, (name, n) ∈ entries → P n) → P (.folder entries)) (n : Node) :
    P n := by
  cases n with
  | file bytes => exact file bytes
  | link target => exact link target
  | folder entries => exact folder entries fun _ m _ => induction_entries file link folder m
termination_by sizeOf n
decreasing_by exact sizeOf_lt_of_mem ‹_›

/-- No folder in or below a node has two entries of the same name. -/
def HasDistinctNames (n : Node) : Prop :=
  ∀ place entries, n.at? place = some (.folder entries) → (entries.map (·.1)).Nodup

theorem HasDistinctNames.at? {n m : Node} (h : n.HasDistinctNames) {place : Place}
    (hm : n.at? place = some m) : m.HasDistinctNames := by
  intro rest entries hentries
  apply h (place ++ rest)
  rw [at?_append, hm]
  exact hentries

theorem HasDistinctNames.nodup {entries : List (Text × Node)}
    (h : (Node.folder entries).HasDistinctNames) : (entries.map (·.1)).Nodup :=
  h [] entries rfl

theorem find?_cons (entry : Text × Node) (entries : List (Text × Node)) (name : Text) :
    find? (entry :: entries) name = if entry.1 = name then some entry.2 else find? entries name := by
  by_cases h : entry.1 = name
  · simp [find?, h]
  · simp [find?, h]

theorem find?_append (entries others : List (Text × Node)) (name : Text) :
    find? (entries ++ others) name = (find? entries name).or (find? others name) := by
  rw [find?, List.find?_append, Option.map_or]
  rfl

/-- Where names are distinct, an entry is found under its name. -/
theorem find?_eq_some_iff {entries : List (Text × Node)} (h : (entries.map (·.1)).Nodup)
    {name : Text} {n : Node} : find? entries name = some n ↔ (name, n) ∈ entries := by
  induction entries with
  | nil => simp [find?]
  | cons entry entries ih =>
    obtain ⟨first, m⟩ := entry
    rw [List.map_cons, List.nodup_cons] at h
    have hrest := ih h.2
    by_cases hname : first = name
    · subst hname
      have habsent : (first, n) ∉ entries := fun hmem => h.1 (List.mem_map.mpr ⟨_, hmem, rfl⟩)
      simp [find?, habsent, eq_comm]
    · rw [find?, List.find?_cons_of_neg (by simpa using hname)]
      simp [← hrest, find?, Ne.symm hname]

theorem mem_of_find? {entries : List (Text × Node)} {name : Text} {n : Node}
    (h : find? entries name = some n) : (name, n) ∈ entries := by
  obtain ⟨entry, hfind, rfl⟩ := Option.map_eq_some_iff.mp h
  have hname : entry.1 = name := by simpa using List.find?_some hfind
  rw [← hname]
  exact List.mem_of_find?_eq_some hfind

theorem at?_cons_eq_some_iff {entries : List (Text × Node)} (h : (entries.map (·.1)).Nodup)
    {name : Text} {rest : Place} {m : Node} :
    (Node.folder entries).at? (name :: rest) = some m ↔
      ∃ n, (name, n) ∈ entries ∧ n.at? rest = some m := by
  rw [at?_cons, Option.bind_eq_some_iff]
  simp only [find?_eq_some_iff h]

theorem HasDistinctNames.entry {entries : List (Text × Node)}
    (h : (Node.folder entries).HasDistinctNames) {name : Text} {n : Node}
    (hn : (name, n) ∈ entries) : n.HasDistinctNames := by
  have hat : (Node.folder entries).at? [name] = some n :=
    (at?_cons_eq_some_iff h.nodup).mpr ⟨n, hn, rfl⟩
  exact h.at? hat

theorem hasDistinctNames_folder_iff {entries : List (Text × Node)} :
    (Node.folder entries).HasDistinctNames ↔
      (entries.map (·.1)).Nodup ∧ ∀ entry ∈ entries, entry.2.HasDistinctNames := by
  constructor
  · intro h
    exact ⟨h.nodup, fun entry hentry => h.entry hentry⟩
  · rintro ⟨hnodup, hentries⟩ place found hfound
    cases place with
    | nil =>
      obtain rfl := Node.folder.inj (Option.some.inj hfound)
      exact hnodup
    | cons name rest =>
      obtain ⟨n, hn, hrest⟩ := (at?_cons_eq_some_iff hnodup).mp hfound
      exact hentries _ hn rest found hrest

theorem hasDistinctNames_file (bytes : List UInt8) : (Node.file bytes).HasDistinctNames := by
  intro place found hfound
  cases place <;> cases hfound

theorem hasDistinctNames_link (target : Text) : (Node.link target).HasDistinctNames := by
  intro place found hfound
  cases place <;> cases hfound

/-- Only in a folder there is a folder at a place. -/
theorem exists_entries_of_at? {n : Node} {place : Place} {below : List (Text × Node)}
    (h : n.at? place = some (.folder below)) : ∃ entries, n = .folder entries := by
  cases n with
  | folder entries => exact ⟨entries, rfl⟩
  | file bytes => cases place <;> cases h
  | link target => cases place <;> cases h

end Node

namespace Disk

/-- Where a walk ends at a node, the node is at that place. -/
theorem at?_of_walk {d : Disk} {followsLast : Bool} {links : Nat} {place found : Place}
    {names : List Text} {n : Node}
    (h : d.walk followsLast links place names = .ok (.taken found n)) :
    d.root.at? found = some n := by
  fun_induction Disk.walk d followsLast links place names
  case case1 hm =>
    obtain ⟨rfl, rfl⟩ := Spot.taken.inj (Except.ok.inj h)
    exact hm
  case case8 place name _ entries hentries _ _ _ target htarget _ =>
    obtain ⟨rfl, rfl⟩ := Spot.taken.inj (Except.ok.inj h)
    rw [Node.at?_append, hentries, Option.bind_some, Node.at?_cons, htarget]
    rfl
  case case3 ih | case4 ih | case10 ih | case11 ih => exact ih h
  all_goals cases h

/-- The entries that a folder is opened with are those of the folder to which its path leads. -/
theorem exists_locate_of_openFolder {d : Disk} {p : Path} {entries : List (Text × Node)}
    (h : d.openFolder p = .ok entries) :
    ∃ place, d.locate true p = .ok (.taken place (.folder entries)) := by
  have hstat : d.stat p = .ok (.folder entries) := by
    unfold openFolder at h
    split at h
    · rename_i found hfound
      obtain rfl := Except.ok.inj h
      exact hfound
    · cases h
    · cases h
  unfold stat at hstat
  split at hstat
  · rename_i place n hlocate
    obtain rfl := Except.ok.inj hstat
    exact ⟨place, hlocate⟩
  · cases hstat
  · cases hstat

theorem exists_place_of_openFolder {d : Disk} {p : Path} {entries : List (Text × Node)}
    (h : d.openFolder p = .ok entries) : ∃ place, d.root.at? place = some (.folder entries) := by
  obtain ⟨place, hlocate⟩ := exists_locate_of_openFolder h
  unfold locate at hlocate
  obtain ⟨_, _, hwalk⟩ := bind_eq_ok_iff.mp hlocate
  exact ⟨place, at?_of_walk hwalk⟩

theorem hasDistinctNames_of_openFolder {d : Disk} (hd : d.root.HasDistinctNames) {p : Path}
    {entries : List (Text × Node)} (h : d.openFolder p = .ok entries) :
    (Node.folder entries).HasDistinctNames := by
  obtain ⟨place, hplace⟩ := exists_place_of_openFolder h
  exact hd.at? hplace

end Disk

end TypeAtlas
