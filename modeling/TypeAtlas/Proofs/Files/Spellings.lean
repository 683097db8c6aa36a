import TypeAtlas.Proofs.Files.Steps

namespace TypeAtlas

theorem Path.below_append (p : Path) (names more : List Text) :
    p.below (names ++ more) = (p.below names).below more := by
  simp [below]

theorem Path.not_blank_of_mem_ofText {t name : Text} (h : name ∈ (ofText t).names) :
    ¬ (name = [] ∨ name = ".") := by
  obtain ⟨_, hname⟩ := List.mem_filter.mp h
  simpa [not_or] using hname

namespace Disk

/-- The place to which a name leads from a place, if it is not that of a link. -/
def enter (place : Place) (name : Text) : Place :=
  if name = [] ∨ name = "." then place
  else if name = ".." then place.dropLast
  else place ++ [name]

/-- A path leads to a place, and on the way there are folders only, none of them behind a link.
Empty names and single dots do not count, and two dots take back the name before them. -/
structure LeadsStraightTo (d : Disk) (p : Path) (place : Place) : Prop where
  place_eq : p.names.foldl enter (d.start p).place = place
  folders : ∀ front, front <+: p.names →
    ∃ entries, d.root.at? (front.foldl enter (d.start p).place) = some (.folder entries)

/-- Whatever names come after them, two paths lead to the same. -/
def Interchangeable (d : Disk) (p q : Path) : Prop :=
  ∀ names, d.walkFrom true (d.start (p.below names)) = d.walkFrom true (d.start (q.below names))

variable {d : Disk} {p q : Path} {place : Place}

theorem step_enter (hnames : HasEntryNames d.root) {entries below : List (Text × Node)}
    (hplace : d.root.at? place = some (.folder entries)) {name : Text}
    (hbelow : d.root.at? (enter place name) = some (.folder below)) (links : Nat)
    (rest : List Text) :
    d.Step true ⟨links, place, name :: rest⟩ ⟨links, enter place name, rest⟩ := by
  by_cases hblank : name = [] ∨ name = "."
  · rw [enter, if_pos hblank]
    exact .stay hplace hblank
  by_cases hdots : name = ".."
  · rw [enter, if_neg hblank, if_pos hdots, hdots]
    exact .up hplace
  · rw [enter, if_neg hblank, if_neg hdots] at hbelow ⊢
    have hentry := hnames place name _ hbelow
    rw [Node.at?_append, hplace, Option.bind_some, Node.at?_cons, Option.bind_eq_some_iff] at hbelow
    obtain ⟨n, hfind, hn⟩ := hbelow
    obtain rfl := Option.some.inj hn
    exact .enter hplace hentry hfind nofun

theorem steps_enter (hnames : HasEntryNames d.root) {names : List Text}
    (h : ∀ front, front <+: names →
      ∃ entries, d.root.at? (front.foldl enter place) = some (.folder entries)) (links : Nat) :
    d.Steps true ⟨links, place, names⟩ ⟨links, names.foldl enter place, []⟩ := by
  induction names generalizing place with
  | nil => exact .refl
  | cons name rest ih =>
    obtain ⟨entries, hplace⟩ := h [] List.nil_prefix
    obtain ⟨below, hbelow⟩ := h [name] (List.cons_prefix_cons.mpr ⟨rfl, List.nil_prefix⟩)
    refine .head (step_enter hnames hplace hbelow links rest) (ih fun front hfront => ?_)
    exact h (name :: front) (List.cons_prefix_cons.mpr ⟨rfl, hfront⟩)

theorem LeadsStraightTo.steps (h : d.LeadsStraightTo p place) (hnames : HasEntryNames d.root) :
    d.Steps true (d.start p) ⟨maxLinks, place, []⟩ := by
  obtain ⟨rfl, hfolders⟩ := h
  exact steps_enter hnames hfolders maxLinks

/-- Paths that lead straight to the same place are interchangeable. -/
theorem LeadsStraightTo.interchangeable (hnames : HasEntryNames d.root)
    (hp : d.LeadsStraightTo p place) (hq : d.LeadsStraightTo q place) : d.Interchangeable p q := by
  intro names
  have hwalk {x : Path} (hx : d.LeadsStraightTo x place) :
      d.walkFrom true (d.start (x.below names)) = d.walkFrom true ⟨maxLinks, place, names⟩ :=
    ((hx.steps hnames).append names).walkFrom_eq
  rw [hwalk hp, hwalk hq]

namespace Interchangeable

theorem below (h : d.Interchangeable p q) (names : List Text) :
    d.Interchangeable (p.below names) (q.below names) := by
  intro more
  rw [← Path.below_append, ← Path.below_append]
  exact h (names ++ more)

theorem child (h : d.Interchangeable p q) (name : Text) :
    d.Interchangeable (p.child name) (q.child name) := by
  have hbelow := h.below [name]
  rwa [Path.below_cons, Path.below_cons, Path.below_nil, Path.below_nil] at hbelow

theorem stat_eq (h : d.Interchangeable p q) (hp : checkPath p = .ok ())
    (hq : checkPath q = .ok ()) :
    d.stat p = d.stat q := by
  have hwalk := h []
  rw [Path.below_nil, Path.below_nil] at hwalk
  rw [stat, stat, locate_eq, locate_eq, hp, hq, ok_bind, ok_bind, hwalk]

end Interchangeable

/-- The name of the folder at a place, which the root does not have. -/
def folderName (place : Place) : Text :=
  place.getLast?.getD []

/-- The last name of a path takes back the one before. -/
def EndsUpward (p : Path) : Prop :=
  p.names.getLast? = some (Text.ofString "..")

theorem baseName_of_endsUpward (d : Disk) (h : EndsUpward p) : d.baseName p = ".." := by
  have hne : p.names ≠ [] := by
    intro hnil
    rw [EndsUpward, hnil] at h
    cases h
  rw [baseName, if_neg hne, Path.name, h]
  rfl

/-- A folder is named by a path that leads straight to it and does not end upward. -/
theorem LeadsStraightTo.baseName_eq {t : Text} (h : d.LeadsStraightTo (.ofText t) place)
    (hend : ¬ EndsUpward (.ofText t)) : d.baseName (.ofText t) = folderName place := by
  obtain ⟨rfl, _⟩ := h
  obtain hnil | ⟨front, last, hlast⟩ := (Path.ofText t).names.eq_nil_or_concat'
  · rw [baseName, if_pos hnil, hnil, List.foldl_nil, start, folderName]
    cases (Path.ofText t).root <;> rfl
  · have hmem : last ∈ (Path.ofText t).names := by simp [hlast]
    have hdots : last ≠ ".." := by
      rintro rfl
      exact hend (by rw [EndsUpward, hlast, List.getLast?_concat])
    have hne : (Path.ofText t).names ≠ [] := List.ne_nil_of_mem hmem
    rw [baseName, if_neg hne, Path.name, hlast, List.foldl_append, List.foldl_cons, List.foldl_nil,
      enter, if_neg (Path.not_blank_of_mem_ofText hmem), if_neg hdots, folderName,
      List.getLast?_concat, List.getLast?_concat]

/-- No folder has two dots for a name. -/
theorem folderName_ne (hnames : HasEntryNames d.root) {n : Node} (h : d.root.at? place = some n) :
    folderName place ≠ ".." := by
  obtain rfl | ⟨front, last, rfl⟩ := place.eq_nil_or_concat'
  · decide
  · rw [folderName, List.getLast?_concat]
    exact (hnames front last n h).ne_dots

theorem LeadsStraightTo.exists_entries (h : d.LeadsStraightTo p place) :
    ∃ entries, d.root.at? place = some (.folder entries) := by
  obtain ⟨rfl, hfolders⟩ := h
  exact hfolders p.names (List.prefix_refl _)

/-- By which paths a folder has its own name. -/
theorem LeadsStraightTo.baseName_eq_iff {t : Text} (h : d.LeadsStraightTo (.ofText t) place)
    (hnames : HasEntryNames d.root) :
    d.baseName (.ofText t) = folderName place ↔ ¬ EndsUpward (.ofText t) := by
  obtain ⟨entries, hplace⟩ := h.exists_entries
  constructor
  · intro hname hend
    rw [baseName_of_endsUpward d hend] at hname
    exact folderName_ne hnames hplace hname.symm
  · exact h.baseName_eq

/-- Which paths of the same folder give it the same name. -/
theorem LeadsStraightTo.baseName_eq_baseName_iff {s t : Text}
    (hs : d.LeadsStraightTo (.ofText s) place) (ht : d.LeadsStraightTo (.ofText t) place)
    (hnames : HasEntryNames d.root) :
    d.baseName (.ofText s) = d.baseName (.ofText t) ↔
      (EndsUpward (.ofText s) ↔ EndsUpward (.ofText t)) := by
  by_cases hends : EndsUpward (.ofText s)
  · rw [baseName_of_endsUpward d hends, iff_true_left hends]
    refine ⟨fun hname => ?_, fun hendt => (baseName_of_endsUpward d hendt).symm⟩
    by_contra hendt
    obtain ⟨entries, hplace⟩ := ht.exists_entries
    rw [ht.baseName_eq hendt] at hname
    exact folderName_ne hnames hplace hname.symm
  · rw [hs.baseName_eq hends, iff_false_left hends, eq_comm]
    exact ht.baseName_eq_iff hnames

end Disk

end TypeAtlas
