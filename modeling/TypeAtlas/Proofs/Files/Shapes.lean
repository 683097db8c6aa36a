import TypeAtlas.Proofs.Files.Steps

namespace TypeAtlas

namespace Node

/-- What a node is, without what is in it if it is a folder. -/
def shape : Node → Node
  | .folder _ => .folder []
  | n => n

theorem shape_eq_file_iff {n : Node} {bytes : List UInt8} :
    n.shape = .file bytes ↔ n = .file bytes := by
  cases n <;> simp [shape]

theorem shape_eq_link_iff {n : Node} {target : Text} :
    n.shape = .link target ↔ n = .link target := by
  cases n <;> simp [shape]

theorem shape_eq_folder_iff {n : Node} : n.shape = .folder [] ↔ ∃ entries, n = .folder entries := by
  cases n <;> simp [shape]

theorem exists_of_map_shape {found found' : Option Node}
    (h : found'.map shape = found.map shape) {n : Node} (hn : found = some n) :
    ∃ n', found' = some n' ∧ n'.shape = n.shape := by
  rwa [hn, Option.map_some, Option.map_eq_some_iff] at h

theorem exists_folder_of_map_shape {found found' : Option Node}
    (h : found'.map shape = found.map shape) {entries : List (Text × Node)}
    (hn : found = some (.folder entries)) : ∃ entries', found' = some (.folder entries') := by
  obtain ⟨n', hn', hshape⟩ := exists_of_map_shape h hn
  obtain ⟨entries', rfl⟩ := shape_eq_folder_iff.mp hshape
  exact ⟨entries', hn'⟩

end Node

/-- What a walk comes to, without what is in it if it is a folder. -/
def Spot.shape : Spot → Spot
  | .taken place n => .taken place n.shape
  | .vacant folder name => .vacant folder name

/-- What is at a spot. -/
def Spot.node : Spot → Except FileFault Node
  | .taken _ n => .ok n
  | .vacant .. => .error .notFound

/-- A walk is about to look at what is at a place: where it has come to, and at the entry of the
next name. -/
def Stage.LooksAt (s : Stage) (place : Place) : Prop :=
  place = s.place ∨ ∃ name, s.names.head? = some name ∧ place = s.place ++ [name]

namespace Disk

/-- What a walk is about to look at has the same shape on two disks. -/
def SameShapes (d d' : Disk) (s : Stage) : Prop :=
  ∀ place, s.LooksAt place → (d'.root.at? place).map Node.shape = (d.root.at? place).map Node.shape

variable {d d' : Disk} {followsLast : Bool} {s t : Stage}

theorem find?_eq_link_of_shape {es es' : List (Text × Node)} {name target : Text}
    (h : (Node.find? es' name).map Node.shape = (Node.find? es name).map Node.shape)
    (hlink : Node.find? es name = some (.link target)) :
    Node.find? es' name = some (.link target) := by
  rw [hlink, Option.map_some, Option.map_eq_some_iff] at h
  obtain ⟨m, hm, hshape⟩ := h
  rw [hm, Node.shape_eq_link_iff.mp hshape]

theorem find?_eq_none_of_shape {es es' : List (Text × Node)} {name : Text}
    (h : (Node.find? es' name).map Node.shape = (Node.find? es name).map Node.shape)
    (hnone : Node.find? es name = none) : Node.find? es' name = none := by
  rw [hnone, Option.map_none, Option.map_eq_none_iff] at h
  exact h

theorem SameShapes.exists_at? (h : d.SameShapes d' s) {m : Node}
    (hm : d.root.at? s.place = some m) :
    ∃ m', d'.root.at? s.place = some m' ∧ m'.shape = m.shape :=
  Node.exists_of_map_shape (h s.place (.inl rfl)) hm

theorem SameShapes.exists_folder (h : d.SameShapes d' s) {es : List (Text × Node)}
    (hes : d.root.at? s.place = some (.folder es)) :
    ∃ es', d'.root.at? s.place = some (.folder es') :=
  Node.exists_folder_of_map_shape (h s.place (.inl rfl)) hes

/-- In a folder to which a walk has come, the entry of the next name has the same shape. -/
theorem SameShapes.exists_entries {links : Nat} {place : Place} {name : Text} {rest : List Text}
    (h : d.SameShapes d' ⟨links, place, name :: rest⟩) {es : List (Text × Node)}
    (hes : d.root.at? place = some (.folder es)) :
    ∃ es', d'.root.at? place = some (.folder es') ∧
      (Node.find? es' name).map Node.shape = (Node.find? es name).map Node.shape := by
  obtain ⟨es', hes'⟩ := h.exists_folder hes
  refine ⟨es', hes', ?_⟩
  have hentry := h (place ++ [name]) (.inr ⟨name, rfl, rfl⟩)
  rw [Node.at?_append, Node.at?_append, hes, hes', Option.bind_some, Option.bind_some,
    Node.at?_cons, Node.at?_cons] at hentry
  simpa [Node.at?] using hentry

/-- A walk takes the same step wherever what it looks at has the same shape. -/
theorem Step.of_shapes (h : d.Step followsLast s t) (hs : d.SameShapes d' s) :
    d'.Step followsLast s t := by
  cases h with
  | stay hes hblank =>
    obtain ⟨es', hes'⟩ := hs.exists_folder hes
    exact .stay hes' hblank
  | up hes =>
    obtain ⟨es', hes'⟩ := hs.exists_folder hes
    exact .up hes'
  | enter hes hentry hfind hlink =>
    obtain ⟨es', hes', hshape⟩ := hs.exists_entries hes
    rw [hfind, Option.map_some, Option.map_eq_some_iff] at hshape
    obtain ⟨m', hm', hsame⟩ := hshape
    refine .enter hes' hentry hm' fun target htarget => ?_
    rw [htarget] at hsame
    exact hlink target (Node.shape_eq_link_iff.mp hsame.symm)
  | follow hes hentry hfind hlast =>
    obtain ⟨es', hes', hshape⟩ := hs.exists_entries hes
    exact .follow hes' hentry (find?_eq_link_of_shape hshape hfind) hlast

theorem Steps.of_shapes (h : d.Steps followsLast s t)
    (hs : ∀ u, d.Steps followsLast s u → d.SameShapes d' u) : d'.Steps followsLast s t := by
  induction h with
  | refl => exact .refl
  | tail hsteps hstep ih => exact ih.tail (hstep.of_shapes (hs _ hsteps))

/-- A walk ends in the same way wherever what it looks at has the same shape. -/
theorem Ends.of_shapes {r : Except FileFault Spot} (h : d.Ends followsLast s r)
    (hs : d.SameShapes d' s) :
    ∃ r', d'.Ends followsLast s r' ∧ r'.map Spot.shape = r.map Spot.shape := by
  cases h with
  | arrived hm =>
    obtain ⟨m', hm', hsame⟩ := hs.exists_at? hm
    exact ⟨_, .arrived hm', by simp [Except.map, Spot.shape, hsame]⟩
  | @lost links place names hnone =>
    have hshape := hs place (.inl rfl)
    rw [hnone, Option.map_none, Option.map_eq_none_iff] at hshape
    exact ⟨_, .lost hshape, rfl⟩
  | blocked hm hfolder =>
    obtain ⟨m', hm', hsame⟩ := hs.exists_at? hm
    refine ⟨_, .blocked hm' fun es hes => ?_, rfl⟩
    rw [hes] at hsame
    obtain ⟨es', rfl⟩ := Node.shape_eq_folder_iff.mp hsame.symm
    exact hfolder es' rfl
  | tooLong hes hblank hdots hlong =>
    obtain ⟨es', hes'⟩ := hs.exists_folder hes
    exact ⟨_, .tooLong hes' hblank hdots hlong, rfl⟩
  | vacant hes hentry hfind =>
    obtain ⟨es', hes', hshape⟩ := hs.exists_entries hes
    exact ⟨_, .vacant hes' hentry (find?_eq_none_of_shape hshape hfind), rfl⟩
  | missing hes hentry hfind hrest =>
    obtain ⟨es', hes', hshape⟩ := hs.exists_entries hes
    exact ⟨_, .missing hes' hentry (find?_eq_none_of_shape hshape hfind) hrest, rfl⟩
  | atLink hes hentry hfind hlast =>
    obtain ⟨es', hes', hshape⟩ := hs.exists_entries hes
    exact ⟨_, .atLink hes' hentry (find?_eq_link_of_shape hshape hfind) hlast, rfl⟩
  | exhausted hes hentry hfind hlast =>
    obtain ⟨es', hes', hshape⟩ := hs.exists_entries hes
    exact ⟨_, .exhausted hes' hentry (find?_eq_link_of_shape hshape hfind) hlast, rfl⟩

/-- A walk comes to the same thing if all that it looks at has the same shape. -/
theorem shape_walkFrom_eq (hs : ∀ u, d.Steps followsLast s u → d.SameShapes d' u) :
    (d'.walkFrom followsLast s).map Spot.shape = (d.walkFrom followsLast s).map Spot.shape := by
  obtain ⟨t, hsteps, hends⟩ := d.exists_ends followsLast s
  obtain ⟨r, hends', hshape⟩ := hends.of_shapes (hs t hsteps)
  rw [(hsteps.of_shapes hs).walkFrom_eq, hends'.walkFrom_eq, hshape]

/-- A path leads to the same thing, but for what is in it, if whoever follows it looks at nothing
that has another shape. -/
theorem shape_stat_eq {p : Path} (hstart : d'.start p = d.start p)
    (hs : ∀ u, d.Steps true (d.start p) u → d.SameShapes d' u) :
    (d'.stat p).map Node.shape = (d.stat p).map Node.shape := by
  have hstat (e : Disk) : (e.stat p).map Node.shape =
      (e.locate true p).map Spot.shape >>= Spot.node := by
    rw [stat]
    cases e.locate true p with
    | error fault => rfl
    | ok spot => cases spot <;> rfl
  rw [hstat, hstat, locate_eq, locate_eq, hstart]
  cases checkPath p with
  | error fault => rfl
  | ok _ => rw [ok_bind, ok_bind, shape_walkFrom_eq hs]

end Disk

end TypeAtlas
