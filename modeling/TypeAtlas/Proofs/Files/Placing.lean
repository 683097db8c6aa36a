import TypeAtlas.Files.Change
import TypeAtlas.Proofs.Files.Places
import TypeAtlas.Proofs.Files.Shapes

namespace TypeAtlas

namespace Node

theorem find?_replace (entries : List (Text × Node)) (name other : Text) (n : Node) :
    find? (entries.map fun e => if e.1 = name then (name, n) else e) other =
      if other = name then (find? entries name).map fun _ => n else find? entries other := by
  induction entries with
  | nil => simp [find?]
  | cons entry entries ih =>
    rw [List.map_cons, find?_cons, ih, find?_cons, find?_cons]
    by_cases hfirst : entry.1 = name
    · simp only [hfirst]
      by_cases hother : other = name
      · simp [hother]
      · simp [hother, Ne.symm hother]
    · simp only [if_neg hfirst]
      by_cases hother : other = name
      · simp [hother, hfirst]
      · simp [hother]

theorem any_eq_true_iff_find? {entries : List (Text × Node)} {name : Text} :
    entries.any (·.1 = name) = true ↔ find? entries name ≠ none := by
  simp [find?]

/-- The entry that is put into a folder is found under its name, and the others are found under
theirs. -/
theorem find?_setEntry (entries : List (Text × Node)) (name other : Text) (n : Node) :
    find? (setEntry entries name n) other =
      if other = name then some n else find? entries other := by
  unfold setEntry
  split
  · rename_i hany
    obtain ⟨m, hm⟩ := Option.ne_none_iff_exists'.mp (any_eq_true_iff_find?.mp hany)
    rw [find?_replace, hm]
    rfl
  · rename_i hany
    have hnone : find? entries name = none := by
      by_contra hfound
      exact hany (any_eq_true_iff_find?.mpr hfound)
    rw [find?_append, find?_cons]
    by_cases hother : other = name
    · simp [hother, hnone]
    · simp [hother, Ne.symm hother, find?]

theorem updateFolder_cons {entries : List (Text × Node)} {first : Text} {m : Node}
    (hfind : find? entries first = some m) (rest : Place)
    (f : List (Text × Node) → List (Text × Node)) :
    (Node.folder entries).updateFolder (first :: rest) f =
      .folder (setEntry entries first (m.updateFolder rest f)) := by
  rw [updateFolder, hfind]

/-- Nothing changes its shape when an entry is put into a folder, but the entry itself. -/
theorem shape_at?_updateFolder {root : Node} {folder : Place} {entries : List (Text × Node)}
    (hfolder : root.at? folder = some (.folder entries)) {name : Text} {n : Node} {place : Place}
    (hplace : ¬ folder ++ [name] <+: place) :
    ((root.updateFolder folder fun es => setEntry es name n).at? place).map shape =
      (root.at? place).map shape := by
  induction folder generalizing root place with
  | nil =>
    obtain rfl := Option.some.inj hfolder
    rw [updateFolder]
    cases place with
    | nil => rfl
    | cons other rest =>
      have hne : other ≠ name := by
        rintro rfl
        exact hplace (by simp)
      rw [at?_cons, at?_cons, find?_setEntry, if_neg hne]
  | cons first folder ih =>
    obtain ⟨es, rfl⟩ := exists_entries_of_at? hfolder
    rw [at?_cons, Option.bind_eq_some_iff] at hfolder
    obtain ⟨m, hfind, hm⟩ := hfolder
    rw [updateFolder_cons hfind]
    cases place with
    | nil => rfl
    | cons other rest =>
      rw [at?_cons, at?_cons, find?_setEntry]
      by_cases hsame : other = first
      · subst hsame
        rw [if_pos rfl, hfind]
        refine ih hm fun hbelow => hplace ?_
        simpa using hbelow
      · rw [if_neg hsame]

theorem at?_updateFolder_below {root : Node} {folder : Place} {entries : List (Text × Node)}
    (hfolder : root.at? folder = some (.folder entries)) (name : Text) (n : Node) (rest : Place) :
    (root.updateFolder folder fun es => setEntry es name n).at? (folder ++ name :: rest) =
      n.at? rest := by
  induction folder generalizing root with
  | nil =>
    obtain rfl := Option.some.inj hfolder
    rw [updateFolder, List.nil_append, at?_cons, find?_setEntry, if_pos rfl, Option.bind_some]
  | cons first folder ih =>
    obtain ⟨es, rfl⟩ := exists_entries_of_at? hfolder
    rw [at?_cons, Option.bind_eq_some_iff] at hfolder
    obtain ⟨m, hfind, hm⟩ := hfolder
    rw [updateFolder_cons hfind, List.cons_append, at?_cons, find?_setEntry, if_pos rfl,
      Option.bind_some]
    exact ih hm

/-- A change of a folder below a place is a change of what is at that place. -/
theorem at?_updateFolder_above {root m : Node} {place : Place} (hm : root.at? place = some m)
    (below : Place) (f : List (Text × Node) → List (Text × Node)) :
    (root.updateFolder (place ++ below) f).at? place = some (m.updateFolder below f) := by
  induction place generalizing root with
  | nil =>
    obtain rfl := Option.some.inj hm
    rfl
  | cons first place ih =>
    cases root with
    | folder entries =>
      rw [at?_cons, Option.bind_eq_some_iff] at hm
      obtain ⟨k, hfind, hk⟩ := hm
      rw [List.cons_append, updateFolder_cons hfind, at?_cons, find?_setEntry, if_pos rfl,
        Option.bind_some]
      exact ih hk
    | file bytes => cases hm
    | link target => cases hm

end Node

/-- A walk is about to look for an entry of the given name in the folder at a place. -/
def Stage.IsAt (s : Stage) (folder : Place) (name : Text) : Prop :=
  s.place = folder ∧ s.names.head? = some name

namespace Disk

variable {d : Disk} {folder : Place} {entries : List (Text × Node)} {name : Text} {n : Node}

/-- What a walk looks at keeps its shape when an entry is put into a folder, wherever it does not look
for that entry. -/
theorem sameShapes_place (hfolder : d.root.at? folder = some (.folder entries)) {s : Stage}
    (hplace : ¬ folder ++ [name] <+: s.place) (hat : ¬ s.IsAt folder name) :
    d.SameShapes (d.place folder name n) s := by
  rintro place (rfl | ⟨other, hhead, rfl⟩)
  · exact Node.shape_at?_updateFolder hfolder hplace
  · apply Node.shape_at?_updateFolder hfolder
    rw [List.prefix_concat_iff]
    rintro (heq | hbelow)
    · obtain ⟨hsame, hlast⟩ := List.append_inj' heq rfl
      rw [← List.singleton_inj.mp hlast] at hhead
      exact hat ⟨hsame.symm, hhead⟩
    · exact hplace hbelow

/-- Nobody who does not look for an entry comes below it. -/
theorem Step.not_prefix {followsLast : Bool} {s t : Stage} (h : d.Step followsLast s t)
    (hplace : ¬ folder ++ [name] <+: s.place) (hat : ¬ s.IsAt folder name) :
    ¬ folder ++ [name] <+: t.place := by
  cases h with
  | stay => exact hplace
  | up => exact fun hbelow => hplace (hbelow.trans (List.dropLast_prefix _))
  | enter =>
    rw [List.prefix_concat_iff]
    rintro (heq | hbelow)
    · obtain ⟨rfl, hlast⟩ := List.append_inj' heq rfl
      exact hat ⟨rfl, by rw [List.singleton_inj.mp hlast]; rfl⟩
    · exact hplace hbelow
  | @follow links place other rest es target =>
    simp only [linkStart]
    split
    · simp
    · exact hplace

theorem Steps.place {followsLast : Bool} {s t : Stage}
    (hfolder : d.root.at? folder = some (.folder entries)) (h : d.Steps followsLast s t)
    (hplace : ¬ folder ++ [name] <+: s.place)
    (hat : ∀ u v, d.Steps followsLast s u → d.Step followsLast u v → d.Steps followsLast v t →
      ¬ u.IsAt folder name) :
    (d.place folder name n).Steps followsLast s t ∧ ¬ folder ++ [name] <+: t.place := by
  induction h with
  | refl => exact ⟨.refl, hplace⟩
  | @tail u t hsteps hstep ih =>
    obtain ⟨hsteps', hu⟩ := ih fun v w hv hw hrest => hat v w hv hw (hrest.tail hstep)
    have hlast := hat u t hsteps hstep .refl
    exact ⟨hsteps'.tail (hstep.of_shapes (sameShapes_place hfolder hu hlast)),
      hstep.not_prefix hu hlast⟩

section Fresh

variable {p : Path} {links : Nat} {package : Place} {m : Node}

/-- What is on a disk is not below an entry that is not. -/
theorem not_prefix_of_at? (hfolder : d.root.at? folder = some (.folder entries))
    (hfresh : Node.find? entries name = none) {place : Place} (hm : d.root.at? place = some m) :
    ¬ folder ++ [name] <+: place := by
  rintro ⟨rest, rfl⟩
  rw [List.append_assoc, Node.at?_append, hfolder, Option.bind_some, List.singleton_append,
    Node.at?_cons, hfresh] at hm
  cases hm

/-- Nobody who comes to something on a disk starts below an entry that is not there. -/
theorem not_prefix_start (hfolder : d.root.at? folder = some (.folder entries))
    (hfresh : Node.find? entries name = none)
    (hsteps : d.Steps true (d.start p) ⟨links, package, []⟩)
    (hpackage : d.root.at? package = some m) : ¬ folder ++ [name] <+: (d.start p).place := by
  obtain heq | ⟨t, hstep, _⟩ := hsteps.cases_head
  · rw [heq]
    exact not_prefix_of_at? hfolder hfresh hpackage
  · obtain ⟨es, hes⟩ := hstep.exists_entries
    exact not_prefix_of_at? hfolder hfresh hes

/-- Nobody who comes to something along a path looks on the way for an entry that is not there. -/
theorem not_seeks_of_steps (hfolder : d.root.at? folder = some (.folder entries))
    (hfresh : Node.find? entries name = none) (hname : IsEntryName name)
    (hsteps : d.Steps true (d.start p) ⟨links, package, []⟩) : ¬ d.Seeks p folder name := by
  rintro ⟨links', rest, hseeks⟩
  have hstuck : ∀ u, ¬ d.Step true ⟨links', folder, name :: rest⟩ u :=
    not_step_of_find?_eq_none hfolder hname hfresh
  obtain hrest | hrest := hsteps.total hseeks
  · cases Steps.eq_of_final hrest (not_step_nil links package)
  · cases Steps.eq_of_final hrest hstuck

end Fresh

/-- Who is about to look for an entry seeks it. -/
theorem Seeks.of_isAt {p : Path} {u : Stage} (hu : d.Steps true (d.start p) u)
    (hat : u.IsAt folder name) : d.Seeks p folder name := by
  obtain ⟨links, place, names⟩ := u
  obtain ⟨rfl, hhead⟩ := hat
  obtain ⟨rest, rfl⟩ := List.head?_eq_some_iff.mp hhead
  exact ⟨links, rest, hu⟩

/-- Nothing changes for a path by which nobody looks for the entry that is put into a folder. -/
theorem shape_stat_place (hfolder : d.root.at? folder = some (.folder entries)) {p : Path}
    (hstart : ¬ folder ++ [name] <+: (d.start p).place) (hseeks : ¬ d.Seeks p folder name) :
    ((d.place folder name n).stat p).map Node.shape = (d.stat p).map Node.shape := by
  have hat : ∀ u, d.Steps true (d.start p) u → ¬ u.IsAt folder name :=
    fun u hu hat => hseeks (.of_isAt hu hat)
  refine shape_stat_eq rfl fun u hu => ?_
  obtain ⟨_, hbelow⟩ := Steps.place (n := n) hfolder hu hstart fun v _ hv _ _ => hat v hv
  exact sameShapes_place hfolder hbelow (hat u hu)

end Disk

end TypeAtlas
