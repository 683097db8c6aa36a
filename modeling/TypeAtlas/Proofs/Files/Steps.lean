import Mathlib.Logic.Basic
import Mathlib.Logic.Relation
import TypeAtlas.Proofs.Files.Places

namespace TypeAtlas

/-- How far a walk has come: how many links it may still follow, where it is, and what names it has
still to follow. -/
structure Stage where
  links : Nat
  place : Place
  names : List Text

namespace Disk

/-- A name under which an entry of a folder is looked for. -/
structure IsEntryName (name : Text) : Prop where
  ne_nil : name ≠ []
  ne_dot : name ≠ "."
  ne_dots : name ≠ ".."
  byteCount_le : byteCount name ≤ maxNameBytes

theorem isEntryName_iff {name : Text} : IsEntryName name ↔
    name ≠ [] ∧ name ≠ "." ∧ name ≠ ".." ∧ byteCount name ≤ maxNameBytes :=
  ⟨fun ⟨hnil, hdot, hdots, hle⟩ => ⟨hnil, hdot, hdots, hle⟩,
    fun ⟨hnil, hdot, hdots, hle⟩ => ⟨hnil, hdot, hdots, hle⟩⟩

instance (name : Text) : Decidable (IsEntryName name) :=
  decidable_of_iff _ isEntryName_iff.symm

/-- The place from which the target of a link is followed, if the link is at a place. -/
def linkStart (place : Place) (target : Text) : Place :=
  if ['/'.toNat].isPrefixOf target then [] else place

/-- A walk follows one name. -/
inductive Step (d : Disk) (followsLast : Bool) : Stage → Stage → Prop
  | stay {links : Nat} {place : Place} {name : Text} {rest : List Text}
      {entries : List (Text × Node)} :
      d.root.at? place = some (.folder entries) → name = [] ∨ name = "." →
        Step d followsLast ⟨links, place, name :: rest⟩ ⟨links, place, rest⟩
  | up {links : Nat} {place : Place} {rest : List Text} {entries : List (Text × Node)} :
      d.root.at? place = some (.folder entries) →
        Step d followsLast ⟨links, place, ".." :: rest⟩ ⟨links, place.dropLast, rest⟩
  | enter {links : Nat} {place : Place} {name : Text} {rest : List Text}
      {entries : List (Text × Node)} {n : Node} :
      d.root.at? place = some (.folder entries) → IsEntryName name →
        Node.find? entries name = some n → (∀ target, n ≠ .link target) →
          Step d followsLast ⟨links, place, name :: rest⟩ ⟨links, place ++ [name], rest⟩
  | follow {links : Nat} {place : Place} {name : Text} {rest : List Text}
      {entries : List (Text × Node)} {target : Text} :
      d.root.at? place = some (.folder entries) → IsEntryName name →
        Node.find? entries name = some (.link target) → rest ≠ [] ∨ followsLast = true →
          Step d followsLast ⟨links + 1, place, name :: rest⟩
            ⟨links, linkStart place target, Text.splitOn '/'.toNat target ++ rest⟩

/-- Some steps of a walk, one after the other. -/
abbrev Steps (d : Disk) (followsLast : Bool) : Stage → Stage → Prop :=
  Relation.ReflTransGen (d.Step followsLast)

/-- What a walk comes to from a stage on. -/
def walkFrom (d : Disk) (followsLast : Bool) (s : Stage) : Except FileFault Spot :=
  d.walk followsLast s.links s.place s.names

/-- The stages at which a walk ends, and what it comes to there. -/
inductive Ends (d : Disk) (followsLast : Bool) : Stage → Except FileFault Spot → Prop
  | arrived {links : Nat} {place : Place} {n : Node} :
      d.root.at? place = some n → Ends d followsLast ⟨links, place, []⟩ (.ok (.taken place n))
  | lost {links : Nat} {place : Place} {names : List Text} :
      d.root.at? place = none → Ends d followsLast ⟨links, place, names⟩ (.error .notFound)
  | blocked {links : Nat} {place : Place} {name : Text} {rest : List Text} {n : Node} :
      d.root.at? place = some n → (∀ entries, n ≠ .folder entries) →
        Ends d followsLast ⟨links, place, name :: rest⟩ (.error .notAFolder)
  | tooLong {links : Nat} {place : Place} {name : Text} {rest : List Text}
      {entries : List (Text × Node)} :
      d.root.at? place = some (.folder entries) → ¬ (name = [] ∨ name = ".") → name ≠ ".." →
        maxNameBytes < byteCount name →
          Ends d followsLast ⟨links, place, name :: rest⟩ (.error .nameTooLong)
  | vacant {links : Nat} {place : Place} {name : Text} {entries : List (Text × Node)} :
      d.root.at? place = some (.folder entries) → IsEntryName name →
        Node.find? entries name = none →
          Ends d followsLast ⟨links, place, [name]⟩ (.ok (.vacant place name))
  | missing {links : Nat} {place : Place} {name : Text} {rest : List Text}
      {entries : List (Text × Node)} :
      d.root.at? place = some (.folder entries) → IsEntryName name →
        Node.find? entries name = none → rest ≠ [] →
          Ends d followsLast ⟨links, place, name :: rest⟩ (.error .notFound)
  | atLink {links : Nat} {place : Place} {name : Text} {entries : List (Text × Node)}
      {target : Text} :
      d.root.at? place = some (.folder entries) → IsEntryName name →
        Node.find? entries name = some (.link target) → followsLast = false →
          Ends d followsLast ⟨links, place, [name]⟩ (.ok (.taken (place ++ [name]) (.link target)))
  | exhausted {place : Place} {name : Text} {rest : List Text} {entries : List (Text × Node)}
      {target : Text} :
      d.root.at? place = some (.folder entries) → IsEntryName name →
        Node.find? entries name = some (.link target) → rest ≠ [] ∨ followsLast = true →
          Ends d followsLast ⟨0, place, name :: rest⟩ (.error .tooManyLinks)

variable {d : Disk} {followsLast : Bool} {s t u : Stage}

theorem IsEntryName.not_blank {name : Text} (h : IsEntryName name) :
    ¬ (name = [] ∨ name = ".") :=
  not_or.mpr ⟨h.ne_nil, h.ne_dot⟩

theorem Step.deterministic (h : d.Step followsLast s t) (h' : d.Step followsLast s u) : t = u := by
  cases h with
  | stay hplace hname =>
    cases h' with
    | stay => rfl
    | up => simp [Text.ofString] at hname
    | enter _ hentry => exact absurd hname hentry.not_blank
    | follow _ hentry => exact absurd hname hentry.not_blank
  | up hplace =>
    cases h' with
    | stay _ hname => simp [Text.ofString] at hname
    | up => rfl
    | enter _ hentry => exact absurd rfl hentry.ne_dots
    | follow _ hentry => exact absurd rfl hentry.ne_dots
  | enter hplace hentry hfind hlink =>
    cases h' with
    | stay _ hname => exact absurd hname hentry.not_blank
    | up => exact absurd rfl hentry.ne_dots
    | enter => rfl
    | follow hplace' _ hfind' =>
      rw [hplace] at hplace'
      obtain rfl := Node.folder.inj (Option.some.inj hplace')
      exact absurd (Option.some.inj (hfind.symm.trans hfind')) (hlink _)
  | follow hplace hentry hfind =>
    cases h' with
    | stay _ hname => exact absurd hname hentry.not_blank
    | up => exact absurd rfl hentry.ne_dots
    | enter hplace' _ hfind' hlink =>
      rw [hplace] at hplace'
      obtain rfl := Node.folder.inj (Option.some.inj hplace')
      exact absurd (Option.some.inj (hfind'.symm.trans hfind)) (hlink _)
    | follow hplace' _ hfind' =>
      rw [hplace] at hplace'
      obtain rfl := Node.folder.inj (Option.some.inj hplace')
      obtain rfl := Node.link.inj (Option.some.inj (hfind.symm.trans hfind'))
      rfl

/-- How a walk goes on at a name under which an entry is looked for. -/
theorem walk_entry {links : Nat} {place : Place} {name : Text} {rest : List Text}
    {entries : List (Text × Node)} (hplace : d.root.at? place = some (.folder entries))
    (hentry : IsEntryName name) :
    d.walk followsLast links place (name :: rest) =
      match Node.find? entries name with
      | none => if rest = [] then .ok (.vacant place name) else .error .notFound
      | some (.link target) =>
        if rest = [] ∧ followsLast = false then .ok (.taken (place ++ [name]) (.link target))
        else match links with
          | 0 => .error .tooManyLinks
          | links + 1 =>
            d.walk followsLast links (linkStart place target)
              (Text.splitOn '/'.toNat target ++ rest)
      | some _ => d.walk followsLast links (place ++ [name]) rest := by
  rw [walk, hplace]
  refine (if_neg hentry.not_blank).trans ((if_neg hentry.ne_dots).trans
    ((if_neg (Nat.not_lt.mpr hentry.byteCount_le)).trans ?_))
  cases Node.find? entries name with
  | none => rfl
  | some m =>
    cases m with
    | file bytes => rfl
    | folder below => rfl
    | link target => cases rest <;> cases followsLast <;> rfl

/-- A step does not change where a walk comes to. -/
theorem Step.walkFrom_eq (h : d.Step followsLast s t) :
    d.walkFrom followsLast s = d.walkFrom followsLast t := by
  unfold walkFrom
  cases h with
  | stay hplace hname =>
    rw [walk, hplace]
    simp only [if_pos hname]
  | up hplace =>
    rw [walk, hplace]
    simp [Text.ofString]
  | @enter links place name rest entries n hplace hentry hfind hlink =>
    rw [walk_entry hplace hentry, hfind]
    cases n with
    | file bytes => rfl
    | folder below => rfl
    | link target => exact absurd rfl (hlink target)
  | follow hplace hentry hfind hlast =>
    rw [← Bool.not_eq_false, ← not_and_or] at hlast
    rw [walk_entry hplace hentry, hfind]
    simp only [if_neg hlast]

theorem Steps.walkFrom_eq (h : d.Steps followsLast s t) :
    d.walkFrom followsLast s = d.walkFrom followsLast t := by
  induction h with
  | refl => rfl
  | tail _ hstep ih => rw [ih, hstep.walkFrom_eq]

/-- A step follows a link, or there are fewer names to come after it. -/
theorem Step.lt (h : d.Step followsLast s t) :
    Prod.Lex (· < ·) (· < ·) (t.links, t.names.length) (s.links, s.names.length) := by
  cases h with
  | stay => exact .right _ (by simp)
  | up => exact .right _ (by simp)
  | enter => exact .right _ (by simp)
  | follow => exact .left _ _ (by simp)

/-- A step is taken in a folder. -/
theorem Step.exists_entries (h : d.Step followsLast s t) :
    ∃ entries, d.root.at? s.place = some (.folder entries) := by
  cases h with
  | stay hplace | up hplace | enter hplace | follow hplace => exact ⟨_, hplace⟩

theorem Steps.eq_of_final (h : d.Steps followsLast s t) (hs : ∀ u, ¬ d.Step followsLast s u) :
    t = s := by
  obtain rfl | ⟨u, hstep, _⟩ := h.cases_head
  · rfl
  · exact absurd hstep (hs u)

/-- A walk can take no other way. -/
theorem Steps.total (h : d.Steps followsLast s t) (h' : d.Steps followsLast s u) :
    d.Steps followsLast t u ∨ d.Steps followsLast u t :=
  Relation.ReflTransGen.total_of_right_unique (fun _ _ _ => Step.deterministic) h h'

theorem not_step_nil (links : Nat) (place : Place) (u : Stage) :
    ¬ d.Step followsLast ⟨links, place, []⟩ u :=
  nofun

/-- No step is taken at a name that is not found. -/
theorem not_step_of_find?_eq_none {links : Nat} {place : Place} {name : Text} {rest : List Text}
    {entries : List (Text × Node)} (hplace : d.root.at? place = some (.folder entries))
    (hentry : IsEntryName name) (hfind : Node.find? entries name = none) (u : Stage) :
    ¬ d.Step followsLast ⟨links, place, name :: rest⟩ u := by
  rintro (⟨_, hblank⟩ | _ | ⟨hplace', _, hfind'⟩ | ⟨hplace', _, hfind'⟩)
  · exact hentry.not_blank hblank
  · exact hentry.ne_dots rfl
  · obtain rfl := Node.folder.inj (Option.some.inj (hplace.symm.trans hplace'))
    cases hfind.symm.trans hfind'
  · obtain rfl := Node.folder.inj (Option.some.inj (hplace.symm.trans hplace'))
    cases hfind.symm.trans hfind'

/-- Names that come after the others do not matter until it is their turn. -/
theorem Step.append (h : d.Step true s t) (more : List Text) :
    d.Step true ⟨s.links, s.place, s.names ++ more⟩ ⟨t.links, t.place, t.names ++ more⟩ := by
  cases h with
  | stay hplace hblank => exact .stay hplace hblank
  | up hplace => exact .up hplace
  | enter hplace hentry hfind hlink => exact .enter hplace hentry hfind hlink
  | follow hplace hentry hfind _ =>
    rw [List.append_assoc]
    exact .follow hplace hentry hfind (.inr rfl)

theorem Steps.append (h : d.Steps true s t) (more : List Text) :
    d.Steps true ⟨s.links, s.place, s.names ++ more⟩ ⟨t.links, t.place, t.names ++ more⟩ := by
  induction h with
  | refl => exact .refl
  | tail _ hstep ih => exact ih.tail (hstep.append more)

/-- The names of all entries in and below a node are such as are looked for. -/
def HasEntryNames (n : Node) : Prop :=
  ∀ place name m, n.at? (place ++ [name]) = some m → IsEntryName name

theorem hasEntryNames_folder {entries : List (Text × Node)}
    (h : ∀ entry ∈ entries, IsEntryName entry.1 ∧ HasEntryNames entry.2) :
    HasEntryNames (.folder entries) := by
  intro place name m hm
  cases place with
  | nil =>
    rw [List.nil_append, Node.at?_cons, Option.bind_eq_some_iff] at hm
    obtain ⟨n, hfind, _⟩ := hm
    exact (h _ (Node.mem_of_find? hfind)).1
  | cons first place =>
    rw [List.cons_append, Node.at?_cons, Option.bind_eq_some_iff] at hm
    obtain ⟨n, hfind, hn⟩ := hm
    exact (h _ (Node.mem_of_find? hfind)).2 place name m hn

theorem hasEntryNames_file (bytes : List UInt8) : HasEntryNames (.file bytes) := by
  intro place name m hm
  cases place <;> cases hm

theorem hasEntryNames_link (target : Text) : HasEntryNames (.link target) := by
  intro place name m hm
  cases place <;> cases hm

/-- The names of folders, one in the other, are followed one by one, up to an entry that is no
link. -/
theorem steps_of_at? (hnames : HasEntryNames d.root) {place sub : Place} {m : Node}
    (hm : d.root.at? (place ++ sub) = some m) (hlink : ∀ target, m ≠ .link target) (links : Nat) :
    d.Steps followsLast ⟨links, place, sub⟩ ⟨links, place ++ sub, []⟩ := by
  induction sub generalizing place with
  | nil =>
    rw [List.append_nil]
  | cons name sub ih =>
    have hconcat : place ++ name :: sub = place ++ [name] ++ sub := by simp
    rw [hconcat] at hm ⊢
    refine .head ?_ (ih hm)
    rw [Node.at?_append, Option.bind_eq_some_iff] at hm
    obtain ⟨n, hn, hsub⟩ := hm
    have hentry := hnames place name n hn
    rw [Node.at?_append, Option.bind_eq_some_iff] at hn
    obtain ⟨k, hplace, hk⟩ := hn
    obtain ⟨entries, rfl⟩ : ∃ entries, k = .folder entries := by
      cases k with
      | folder entries => exact ⟨entries, rfl⟩
      | file bytes => cases hk
      | link target => cases hk
    rw [Node.at?_cons, Option.bind_eq_some_iff] at hk
    obtain ⟨n', hfind, hsome⟩ := hk
    obtain rfl := Option.some.inj hsome
    refine .enter hplace hentry hfind fun target htarget => ?_
    subst htarget
    cases sub with
    | nil => exact hlink target (Option.some.inj hsub).symm
    | cons other sub => cases hsub

/-- What a walk comes to at a stage where it ends. -/
theorem Ends.walkFrom_eq {r : Except FileFault Spot} (h : d.Ends followsLast s r) :
    d.walkFrom followsLast s = r := by
  unfold walkFrom
  cases h with
  | arrived hplace => rw [walk, hplace]
  | @lost links place names hplace => cases names <;> rw [walk, hplace]
  | @blocked links place name rest n hplace hfolder =>
    rw [walk, hplace]
    cases n with
    | file bytes => rfl
    | link target => rfl
    | folder entries => exact absurd rfl (hfolder entries)
  | tooLong hplace hblank hdots hlong =>
    rw [walk, hplace]
    simp only [if_neg hblank, if_neg hdots, if_pos hlong]
  | vacant hplace hentry hfind => rw [walk_entry hplace hentry, hfind]; rfl
  | missing hplace hentry hfind hrest =>
    rw [walk_entry hplace hentry, hfind]
    exact if_neg hrest
  | atLink hplace hentry hfind hlast =>
    rw [walk_entry hplace hentry, hfind]
    exact if_pos ⟨rfl, hlast⟩
  | exhausted hplace hentry hfind hlast =>
    rw [← Bool.not_eq_false, ← not_and_or] at hlast
    rw [walk_entry hplace hentry, hfind]
    exact if_neg hlast

/-- At a name under which an entry is looked for a walk takes a step, or it ends there. -/
theorem step_or_ends_entry {place : Place} {name : Text} {entries : List (Text × Node)}
    (hplace : d.root.at? place = some (.folder entries)) (hentry : IsEntryName name) (links : Nat)
    (rest : List Text) :
    (∃ t, d.Step followsLast ⟨links, place, name :: rest⟩ t) ∨
      ∃ r, d.Ends followsLast ⟨links, place, name :: rest⟩ r := by
  cases hfind : Node.find? entries name with
  | none =>
    by_cases hrest : rest = []
    · subst hrest
      exact .inr ⟨_, .vacant hplace hentry hfind⟩
    · exact .inr ⟨_, .missing hplace hentry hfind hrest⟩
  | some m =>
    cases m with
    | file bytes => exact .inl ⟨_, .enter hplace hentry hfind nofun⟩
    | folder below => exact .inl ⟨_, .enter hplace hentry hfind nofun⟩
    | link target =>
      by_cases hlast : rest = [] ∧ followsLast = false
      · obtain ⟨rfl, rfl⟩ := hlast
        exact .inr ⟨_, .atLink hplace hentry hfind rfl⟩
      · rw [not_and_or, Bool.not_eq_false] at hlast
        cases links with
        | zero => exact .inr ⟨_, .exhausted hplace hentry hfind hlast⟩
        | succ links => exact .inl ⟨_, .follow hplace hentry hfind hlast⟩

/-- A walk takes a step from a stage on, or it ends there. -/
theorem step_or_ends (d : Disk) (followsLast : Bool) (s : Stage) :
    (∃ t, d.Step followsLast s t) ∨ ∃ r, d.Ends followsLast s r := by
  obtain ⟨links, place, names⟩ := s
  cases hplace : d.root.at? place with
  | none => exact .inr ⟨_, .lost hplace⟩
  | some n =>
    cases names with
    | nil => exact .inr ⟨_, .arrived hplace⟩
    | cons name rest =>
      cases n with
      | file bytes => exact .inr ⟨_, .blocked hplace nofun⟩
      | link target => exact .inr ⟨_, .blocked hplace nofun⟩
      | folder entries =>
        by_cases hblank : name = [] ∨ name = "."
        · exact .inl ⟨_, .stay hplace hblank⟩
        by_cases hdots : name = ".."
        · subst hdots
          exact .inl ⟨_, .up hplace⟩
        by_cases hlong : maxNameBytes < byteCount name
        · exact .inr ⟨_, .tooLong hplace hblank hdots hlong⟩
        obtain ⟨hne, hdot⟩ := not_or.mp hblank
        exact step_or_ends_entry hplace ⟨hne, hdot, hdots, Nat.le_of_not_lt hlong⟩ links rest

/-- Every walk comes to an end. -/
theorem exists_ends (d : Disk) (followsLast : Bool) (s : Stage) :
    ∃ t, d.Steps followsLast s t ∧ d.Ends followsLast t (d.walkFrom followsLast s) := by
  obtain ⟨t, hstep⟩ | ⟨r, hends⟩ := d.step_or_ends followsLast s
  · obtain ⟨u, hsteps, hends⟩ := exists_ends d followsLast t
    exact ⟨u, .head hstep hsteps, hstep.walkFrom_eq ▸ hends⟩
  · exact ⟨s, .refl, hends.walkFrom_eq.symm ▸ hends⟩
termination_by (s.links, s.names.length)
decreasing_by exact hstep.lt

/-- Where the walk along a path starts. -/
def start (d : Disk) (p : Path) : Stage where
  links := maxLinks
  place := if p.root = .none then d.here else []
  names := p.names

theorem locate_eq (d : Disk) (followsLast : Bool) (p : Path) :
    d.locate followsLast p = checkPath p >>= fun _ => d.walkFrom followsLast (d.start p) :=
  rfl

/-- A path that leads to something is followed there. -/
theorem exists_steps_of_locate {p : Path} {place : Place} {n : Node}
    (h : d.locate true p = .ok (.taken place n)) :
    checkPath p = .ok () ∧ d.root.at? place = some n ∧
      ∃ links, d.Steps true (d.start p) ⟨links, place, []⟩ := by
  rw [locate_eq] at h
  obtain ⟨_, hcheck, hwalk⟩ := bind_eq_ok_iff.mp h
  obtain ⟨t, hsteps, hends⟩ := d.exists_ends true (d.start p)
  rw [hwalk] at hends
  cases hends with
  | arrived hplace => exact ⟨hcheck, hplace, _, hsteps⟩
  | atLink _ _ _ hlast => cases hlast

theorem stat_of_steps {p : Path} {place : Place} {n : Node} {links : Nat}
    (hcheck : checkPath p = .ok ()) (hplace : d.root.at? place = some n)
    (hsteps : d.Steps true (d.start p) ⟨links, place, []⟩) : d.stat p = .ok n := by
  have hwalk : d.walkFrom true (d.start p) = .ok (.taken place n) := by
    rw [hsteps.walkFrom_eq, (Ends.arrived hplace).walkFrom_eq]
  rw [stat, locate_eq, hcheck, ok_bind, hwalk]

theorem openFolder_of_stat {p : Path} {entries : List (Text × Node)}
    (h : d.stat p = .ok (.folder entries)) : d.openFolder p = .ok entries := by
  rw [openFolder, h]

/-- Whoever follows a path looks for an entry of the given name in the folder at a place. -/
def Seeks (d : Disk) (p : Path) (folder : Place) (name : Text) : Prop :=
  ∃ links rest, d.Steps true (d.start p) ⟨links, folder, name :: rest⟩

end Disk

end TypeAtlas
