import TypeAtlas.Analysis.Reports
import TypeAtlas.Proofs.Except

namespace TypeAtlas

theorem withoutExtension_append {extension name : Text} (h : hasExtension extension name = true) :
    withoutExtension extension name ++ extension = name := by
  obtain ⟨front, rfl⟩ := List.isSuffixOf_iff_suffix.mp h
  rw [withoutExtension, if_pos h]
  simp

namespace Disk

theorem entryKinds_eq_ok {d : Disk} {folder : Path} {extension : Text}
    {entries : List (Text × Node)} {kinds : List (Text × EntryKind)}
    (h : d.entryKinds folder extension entries = .ok kinds) :
    List.Forall₂ (fun e k => k.1 = e.1 ∧ d.entryKind folder extension e.1 e.2 = .ok k.2)
      entries kinds := by
  induction entries generalizing kinds with
  | nil =>
    obtain rfl := Except.ok.inj h
    exact .nil
  | cons entry entries ih =>
    obtain ⟨name, n⟩ := entry
    simp only [entryKinds, bind_eq_ok_iff, pure_eq_ok_iff] at h
    obtain ⟨kind, hkind, rest, hrest, rfl⟩ := h
    exact .cons ⟨rfl, hkind⟩ (ih hrest)

theorem entryKind_eq_source {d : Disk} {folder : Path} {extension name : Text} {n : Node}
    (h : d.entryKind folder extension name n = .ok .source) :
    hasExtension extension name = true := by
  by_contra hnot
  unfold entryKind at h
  rw [if_neg hnot] at h
  cases n with
  | folder entries => cases h
  | file bytes => cases h
  | link target =>
    simp only at h
    split at h <;> cases h

theorem entryKind_eq_folder_iff {d : Disk} {folder : Path} {extension name : Text} {n : Node} :
    d.entryKind folder extension name n = .ok .folder ↔ ∃ entries, n = .folder entries := by
  constructor
  · intro h
    unfold entryKind at h
    cases n with
    | folder entries => exact ⟨entries, rfl⟩
    | file bytes =>
      simp only [Except.ok.injEq] at h
      split at h <;> cases h
    | link target =>
      simp only at h
      split at h
      · cases h
      · simp only [Except.ok.injEq] at h
        split at h <;> cases h
      · cases h
      · cases h
  · rintro ⟨entries, rfl⟩
    rfl

theorem mem_namesOf_iff {kinds : List (Text × EntryKind)} {kind : EntryKind} {name : Text} :
    name ∈ namesOf kinds kind ↔ (name, kind) ∈ kinds := by
  simp [namesOf]

/-- The kinds that are found tell of all entries and of nothing else. -/
theorem mem_kinds_iff {d : Disk} {folder : Path} {extension : Text}
    {entries : List (Text × Node)} {kinds : List (Text × EntryKind)}
    (h : d.entryKinds folder extension entries = .ok kinds) {name : Text} {kind : EntryKind} :
    (name, kind) ∈ kinds ↔
      ∃ n, (name, n) ∈ entries ∧ d.entryKind folder extension name n = .ok kind := by
  have hall := entryKinds_eq_ok h
  clear h
  induction hall with
  | nil => simp
  | @cons e k entries kinds hek _ ih =>
    obtain ⟨first, m⟩ := e
    obtain ⟨_, found⟩ := k
    obtain ⟨rfl, hfound⟩ := hek
    simp only [List.mem_cons, Prod.mk.injEq, ih]
    constructor
    · rintro (⟨rfl, rfl⟩ | ⟨n, hn, hkind⟩)
      · exact ⟨m, .inl ⟨rfl, rfl⟩, hfound⟩
      · exact ⟨n, .inr hn, hkind⟩
    · rintro ⟨n, ⟨rfl, rfl⟩ | hn, hkind⟩
      · exact .inl ⟨rfl, Except.ok.inj (hkind.symm.trans hfound)⟩
      · exact .inr ⟨n, hn, hkind⟩

theorem nodup_namesOf {d : Disk} {folder : Path} {extension : Text}
    {entries : List (Text × Node)} {kinds : List (Text × EntryKind)}
    (h : d.entryKinds folder extension entries = .ok kinds)
    (hnodup : (entries.map (·.1)).Nodup) (kind : EntryKind) : (namesOf kinds kind).Nodup := by
  have hsame : kinds.map (·.1) = entries.map (·.1) := by
    have hall := entryKinds_eq_ok h
    clear h hnodup
    induction hall with
    | nil => rfl
    | cons hek _ ih => rw [List.map_cons, List.map_cons, ih, hek.1]
  rw [← hsame] at hnodup
  exact hnodup.sublist (List.filter_sublist.map _)

/-- What the listing of a folder tells of it, in which no two entries have the same name. -/
structure Lists (d : Disk) (c : Settings) (path : Path) (entries : List (Text × Node))
    (listing : Listing) : Prop where
  listed : d.listEntries c path entries = .ok listing
  nodup_sources : listing.sources.Nodup
  nodup_folders : listing.folders.Nodup
  mem_sources : ∀ name, name ∈ listing.sources ↔
    ∃ n, (name, n) ∈ entries ∧ d.entryKind path c.sourceExtension name n = .ok .source
  mem_folders : ∀ name, name ∈ listing.folders ↔ ∃ below, (name, Node.folder below) ∈ entries

/-- A folder is listed by the kinds of its entries. -/
theorem exists_kinds_of_listEntries {d : Disk} {c : Settings} {path : Path}
    {entries : List (Text × Node)} {listing : Listing}
    (h : d.listEntries c path entries = .ok listing) :
    ∃ kinds, d.entryKinds path c.sourceExtension entries = .ok kinds ∧
      listing = { sources := namesOf kinds .source, folders := namesOf kinds .folder,
                  linkedFolders := namesOf kinds .linkedFolder } := by
  unfold listEntries at h
  cases hlisting : (do checkPath path; d.listing path c.sourceExtension entries) with
  | error e =>
    rw [hlisting] at h
    cases h
  | ok found =>
    rw [hlisting] at h
    obtain rfl := Except.ok.inj h
    obtain ⟨_, _, hfound⟩ := bind_eq_ok_iff.mp hlisting
    simp only [listing, bind_eq_ok_iff, pure_eq_ok_iff] at hfound
    obtain ⟨kinds, hkinds, rfl⟩ := hfound
    exact ⟨kinds, hkinds, rfl⟩

theorem lists_of_listEntries {d : Disk} {c : Settings} {path : Path}
    {entries : List (Text × Node)} {listing : Listing}
    (h : d.listEntries c path entries = .ok listing) (hnodup : (entries.map (·.1)).Nodup) :
    d.Lists c path entries listing := by
  obtain ⟨kinds, hkinds, rfl⟩ := exists_kinds_of_listEntries h
  refine ⟨h, nodup_namesOf hkinds hnodup _, nodup_namesOf hkinds hnodup _, fun name => ?_,
    fun name => ?_⟩
  · rw [mem_namesOf_iff, mem_kinds_iff hkinds]
  · rw [mem_namesOf_iff, mem_kinds_iff hkinds]
    simp only [entryKind_eq_folder_iff]
    constructor
    · rintro ⟨_, hn, below, rfl⟩
      exact ⟨below, hn⟩
    · rintro ⟨below, hn⟩
      exact ⟨_, hn, below, rfl⟩

end Disk

end TypeAtlas
