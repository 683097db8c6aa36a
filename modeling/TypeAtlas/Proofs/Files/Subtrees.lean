import TypeAtlas.Proofs.Files.Places

namespace TypeAtlas.Node

mutual

/-- The folders in and below a node, none of them behind a link, with their places as seen from
it. -/
def folders : Node → List (Place × List (Text × Node))
  | .folder entries => ([], entries) :: foldersAmong entries
  | _ => []

def foldersAmong : List (Text × Node) → List (Place × List (Text × Node))
  | [] => []
  | (name, n) :: entries =>
    n.folders.map (fun f => (name :: f.1, f.2)) ++ foldersAmong entries

end

theorem mem_foldersAmong_iff {entries : List (Text × Node)} {f : Place × List (Text × Node)} :
    f ∈ foldersAmong entries ↔
      ∃ name n g, (name, n) ∈ entries ∧ g ∈ n.folders ∧ f = (name :: g.1, g.2) := by
  induction entries with
  | nil => simp [foldersAmong]
  | cons entry entries ih =>
    obtain ⟨first, m⟩ := entry
    rw [foldersAmong, List.mem_append, List.mem_map, ih]
    constructor
    · rintro (⟨g, hg, rfl⟩ | ⟨name, n, g, hn, hg, rfl⟩)
      · exact ⟨first, m, g, List.mem_cons_self, hg, rfl⟩
      · exact ⟨name, n, g, List.mem_cons_of_mem _ hn, hg, rfl⟩
    · rintro ⟨name, n, g, hn, hg, rfl⟩
      obtain heq | hn := List.mem_cons.mp hn
      · obtain ⟨rfl, rfl⟩ := Prod.mk.inj heq
        exact .inl ⟨g, hg, rfl⟩
      · exact .inr ⟨name, n, g, hn, hg, rfl⟩

/-- The folders in and below a node are those that are found at their places. -/
theorem mem_folders_iff {n : Node} (h : n.HasDistinctNames) {place : Place}
    {entries : List (Text × Node)} :
    (place, entries) ∈ n.folders ↔ n.at? place = some (.folder entries) := by
  induction place generalizing n with
  | nil =>
    cases n with
    | folder es =>
      have hbelow : ([], entries) ∉ foldersAmong es := by
        rw [mem_foldersAmong_iff]
        rintro ⟨name, n, g, _, _, heq⟩
        cases heq
      simp [folders, at?, hbelow, eq_comm]
    | file bytes => simp [folders, at?]
    | link target => simp [folders, at?]
  | cons name rest ih =>
    cases n with
    | folder es =>
      rw [folders, List.mem_cons, mem_foldersAmong_iff, at?_cons_eq_some_iff h.nodup]
      constructor
      · rintro (heq | ⟨first, n, g, hn, hg, heq⟩)
        · cases heq
        · obtain ⟨hplace, rfl⟩ := Prod.mk.inj heq
          obtain ⟨rfl, rfl⟩ := List.cons.inj hplace
          exact ⟨n, hn, (ih (h.entry hn)).mp hg⟩
      · rintro ⟨n, hn, hat⟩
        exact .inr ⟨name, n, (rest, entries), hn, (ih (h.entry hn)).mpr hat, rfl⟩
    | file bytes => simp [folders, at?]
    | link target => simp [folders, at?]

mutual

/-- No two folders are at the same place. -/
theorem nodup_folders (n : Node) (h : n.HasDistinctNames) : (n.folders.map (·.1)).Nodup := by
  match n with
  | .folder entries =>
    rw [folders, List.map_cons, List.nodup_cons]
    refine ⟨?_, nodup_foldersAmong entries h.nodup fun name n hn => h.entry hn⟩
    intro hmem
    obtain ⟨f, hf, hplace⟩ := List.mem_map.mp hmem
    obtain ⟨name, n, g, _, _, rfl⟩ := mem_foldersAmong_iff.mp hf
    cases hplace
  | .file bytes => simp [folders]
  | .link target => simp [folders]

theorem nodup_foldersAmong (entries : List (Text × Node)) (hnodup : (entries.map (·.1)).Nodup)
    (h : ∀ name n, (name, n) ∈ entries → n.HasDistinctNames) :
    ((foldersAmong entries).map (·.1)).Nodup := by
  match entries with
  | [] => simp [foldersAmong]
  | (first, m) :: entries =>
    rw [List.map_cons, List.nodup_cons] at hnodup
    have hm := nodup_folders m (h first m List.mem_cons_self)
    have hrest := nodup_foldersAmong entries hnodup.2
      fun name n hn => h name n (List.mem_cons_of_mem _ hn)
    have hsame : (m.folders.map fun f => (first :: f.1, f.2)).map (·.1) =
        (m.folders.map (·.1)).map (first :: ·) := by
      rw [List.map_map, List.map_map]
      rfl
    rw [foldersAmong, List.map_append, hsame, List.nodup_append]
    refine ⟨hm.map fun p q heq => (List.cons.inj heq).2, hrest, ?_⟩
    intro place hplace other hother heq
    obtain ⟨p, _, rfl⟩ := List.mem_map.mp hplace
    obtain ⟨f, hf, rfl⟩ := List.mem_map.mp hother
    obtain ⟨name, n, g, hn, _, rfl⟩ := mem_foldersAmong_iff.mp hf
    obtain ⟨rfl, _⟩ := List.cons.inj heq
    exact hnodup.1 (List.mem_map.mpr ⟨_, hn, rfl⟩)

end

/-- The folders among some entries, none of them behind a link, with their names. -/
def subfolders : List (Text × Node) → List (Text × List (Text × Node))
  | [] => []
  | (name, .folder below) :: entries => (name, below) :: subfolders entries
  | _ :: entries => subfolders entries

theorem mem_subfolders_iff {entries below : List (Text × Node)} {name : Text} :
    (name, below) ∈ subfolders entries ↔ (name, Node.folder below) ∈ entries := by
  induction entries with
  | nil => simp [subfolders]
  | cons entry entries ih =>
    obtain ⟨first, n⟩ := entry
    cases n with
    | folder es => simp [subfolders, ih]
    | file bytes => simp [subfolders, ih]
    | link target => simp [subfolders, ih]

theorem nodup_subfolders {entries : List (Text × Node)} (h : (entries.map (·.1)).Nodup) :
    ((subfolders entries).map (·.1)).Nodup := by
  induction entries with
  | nil => simp [subfolders]
  | cons entry entries ih =>
    obtain ⟨name, n⟩ := entry
    rw [List.map_cons, List.nodup_cons] at h
    have hrest := ih h.2
    cases n with
    | folder below =>
      rw [subfolders, List.map_cons, List.nodup_cons]
      refine ⟨?_, hrest⟩
      intro hmem
      obtain ⟨⟨_, es⟩, hes, rfl⟩ := List.mem_map.mp hmem
      exact h.1 (List.mem_map.mpr ⟨_, mem_subfolders_iff.mp hes, rfl⟩)
    | file bytes => exact hrest
    | link target => exact hrest

theorem sizeOf_lt_of_mem_subfolders {entries : List (Text × Node)}
    {f : Text × List (Text × Node)} (h : f ∈ subfolders entries) : sizeOf f.2 < sizeOf entries := by
  have hmem := List.sizeOf_lt_of_mem (mem_subfolders_iff.mp h)
  simp only [Prod.mk.sizeOf_spec, folder.sizeOf_spec] at hmem
  omega

/-- The folders below a folder are those in and below the folders in it. -/
theorem foldersAmong_eq (entries : List (Text × Node)) :
    foldersAmong entries = (subfolders entries).flatMap fun f =>
      (Node.folder f.2).folders.map fun g => (f.1 :: g.1, g.2) := by
  induction entries with
  | nil => rfl
  | cons entry entries ih =>
    obtain ⟨name, n⟩ := entry
    cases n with
    | folder below => rw [foldersAmong, ih, subfolders, List.flatMap_cons]
    | file bytes =>
      rw [foldersAmong, ih]
      rfl
    | link target =>
      rw [foldersAmong, ih]
      rfl

end TypeAtlas.Node
