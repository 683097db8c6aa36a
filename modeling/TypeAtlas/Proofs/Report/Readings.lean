import Mathlib.Data.List.DropRight
import TypeAtlas.Proofs.Report.Entries
import TypeAtlas.Proofs.Report.Outline

namespace TypeAtlas

/-- A line that names a class ends with the bracket behind its package. -/
def isClassLine (line : Text) : Bool :=
  line.getLast? = some ')'.toNat

/-- The class on a line, whose package stands in brackets behind the last space, with what it
depends on from the lines below. -/
def ClassEntry.ofLines (line : Text) (below : List Text) : ClassEntry where
  className := ((content line).rdropWhile (· ≠ ' '.toNat)).dropLast
  packageName := (((content line).rtakeWhile (· ≠ ' '.toNat)).drop 1).dropLast
  dependencies := below.map fun l => (content l).drop 3

/-- Reads the classes of an outline line by line. What a class depends on stands below it, further
from the margin. -/
def readClasses : List Text → List ClassEntry
  | [] => []
  | line :: lines =>
    if isClassLine line then
      .ofLines line (lines.takeWhile fun l => margin line < margin l) ::
        readClasses (lines.dropWhile fun l => margin line < margin l)
    else readClasses lines
termination_by lines => lines.length
decreasing_by
  · have := List.length_dropWhile_le (fun l => decide (margin line < margin l)) lines
    simp only [List.length_cons]
    omega
  · simp

/-- The last number on a line. -/
def printedCount (line : Text) : Nat :=
  Nat.ofDigitChars 10
    (((line.map Char.ofNat).rdropWhile fun c => !c.isDigit).rtakeWhile Char.isDigit) 0

/-- Reads the outline of a project: its number of classes, and the classes. -/
def readOutline (text : Text) : Nat × List ClassEntry :=
  match List.splitOn '\n'.toNat text with
  | [] => (0, [])
  | first :: lines => (printedCount first, readClasses lines)

/-- The class can be read from an outline. -/
structure ClassReport.IsClear (c : ClassReport) : Prop extends c.IsUncut where
  beginsVisibly : BeginsVisibly c.className
  space_notMem : ' '.toNat ∉ c.packageName

/-- No name of a package has a line end in it, and all classes can be read from an outline. -/
def PackageReport.IsClear (p : PackageReport) : Prop :=
  p.Everywhere (fun name => '\n'.toNat ∉ name) ClassReport.IsClear

/-- The names that are not those of classes have no line end in them, and all classes can be read
from an outline. -/
def Report.IsClear (r : Report) : Prop :=
  r.Everywhere (fun name => '\n'.toNat ∉ name) ClassReport.IsClear

theorem Report.IsClear.isUncut {r : Report} (h : r.IsClear) : r.IsUncut :=
  Everywhere.mono (fun _ hname => hname) (fun _ hc => hc.toIsUncut) h

section

variable {α : Type} {P : α → Bool} {xs ys : List α} {a : α}

theorem rtakeWhile_append_cons (ha : P a = false) (hys : ∀ y ∈ ys, P y = true) :
    (xs ++ a :: ys).rtakeWhile P = ys := by
  rw [List.rtakeWhile, List.reverse_append, List.reverse_cons, List.append_assoc,
    List.takeWhile_append_of_pos (by simpa using hys)]
  simp [ha]

theorem rdropWhile_append_of_pos (hys : ∀ y ∈ ys, P y = true) :
    (xs ++ ys).rdropWhile P = xs.rdropWhile P := by
  rw [List.rdropWhile, List.reverse_append, List.dropWhile_append_of_pos (by simpa using hys),
    List.rdropWhile]

theorem rdropWhile_append_cons (ha : P a = false) (hys : ∀ y ∈ ys, P y = true) :
    (xs ++ a :: ys).rdropWhile P = xs ++ [a] := by
  rw [List.append_cons, rdropWhile_append_of_pos hys]
  exact List.rdropWhile_concat_neg P xs a (by simp [ha])

end

theorem Text.map_ofNat_ofString (s : String) : (ofString s).map Char.ofNat = s.toList := by
  rw [ofString, List.map_map]
  exact List.map_id'' (fun c => Char.ofNat_toNat c) _

/-- The number in the first line of a project is read from it, whatever the name of the project. -/
theorem printedCount_title (name : Text) (n : Nat) :
    printedCount (name ++ " (" ++ toString n ++ " classes)") = n := by
  have hdigits : ∀ c ∈ Nat.toDigits 10 n, c.isDigit = true := fun c hc =>
    Nat.isDigit_of_mem_toDigits (by decide) (by decide) hc
  have hline : (name ++ " (" ++ toString n ++ " classes)" : Text).map Char.ofNat =
      (name.map Char.ofNat ++ [' '] ++ '(' :: Nat.toDigits 10 n) ++ " classes)".toList := by
    simp [Text.map_ofNat_ofString, toString]
  have hlast : (name.map Char.ofNat ++ [' '] ++ '(' :: Nat.toDigits 10 n).rdropWhile
      (fun c => !c.isDigit) = name.map Char.ofNat ++ [' '] ++ '(' :: Nat.toDigits 10 n := by
    rw [List.rdropWhile_eq_self_iff]
    intro hne
    rw [List.getLast_append_of_ne_nil _ (by simp), List.getLast_cons Nat.toDigits_ne_nil,
      hdigits _ (List.getLast_mem _)]
    decide
  rw [printedCount, hline, rdropWhile_append_of_pos (by simp), hlast,
    rtakeWhile_append_cons (by decide) hdigits, Nat.ofDigitChars_ten_toDigits]

/-- The lines do not go on with a line further from the margin. -/
def StaysWithin (m : Nat) (lines : List Text) : Prop :=
  ∀ line ∈ lines.head?, margin line ≤ m

variable {depth m : Nat} {rest : List Text}

theorem StaysWithin.mono {k : Nat} (h : StaysWithin k rest) (hle : k ≤ m) : StaysWithin m rest :=
  fun line hline => (h line hline).trans hle

theorem StaysWithin.takeWhile_eq_nil (h : StaysWithin m rest) :
    rest.takeWhile (fun line => m < margin line) = [] := by
  cases rest with
  | nil => rfl
  | cons line rest => exact List.takeWhile_cons_of_neg (by simpa using h line rfl)

theorem StaysWithin.dropWhile_eq_self (h : StaysWithin m rest) :
    rest.dropWhile (fun line => m < margin line) = rest := by
  cases rest with
  | nil => rfl
  | cons line rest => exact List.dropWhile_cons_of_neg (by simpa using h line rfl)

namespace ClassReport

variable {c : ClassReport}

theorem IsClear.beginsVisibly_title (h : c.IsClear) : BeginsVisibly c.title := by
  obtain ⟨x, t, hname, hx⟩ := h.beginsVisibly
  rw [title_eq, hname]
  exact ⟨x, _, rfl, hx⟩

theorem IsClear.margin_title (h : c.IsClear) (depth : Nat) :
    margin (outlineLine depth c.title) = 2 * depth :=
  margin_outlineLine h.beginsVisibly_title depth

theorem isClassLine_title (c : ClassReport) (depth : Nat) :
    isClassLine (outlineLine depth c.title) = true := by
  rw [isClassLine, outlineLine, title, ← List.append_assoc]
  simp [Text.ofString, List.getLast?_cons]

/-- The line of a class and the lines below it say all there is in its entry. -/
theorem IsClear.ofLines_eq (h : c.IsClear) (depth : Nat) :
    .ofLines (outlineLine depth c.title)
      (c.dependencies.toList.map fun name => outlineLine (depth + 1) ("-> " ++ name)) =
        c.entry := by
  have hvisible : ∀ x ∈ ("(" ++ c.packageName ++ ")" : Text), x ≠ ' '.toNat := by
    rintro x hx rfl
    have hspace : 32 ∉ c.packageName := h.space_notMem
    simp [Text.ofString, hspace] at hx
  have hcontents : (c.dependencies.toList.map fun name =>
      outlineLine (depth + 1) ("-> " ++ name)).map (fun l => (content l).drop 3) =
        c.dependencies.toList := by
    rw [List.map_map]
    refine (List.map_congr_left fun name _ => ?_).trans (List.map_id _)
    rw [Function.comp_apply, content_outlineLine (beginsVisibly_dependency name)]
    rfl
  rw [ClassEntry.ofLines, hcontents, content_outlineLine h.beginsVisibly_title, title_eq,
    rdropWhile_append_cons (by simp) (by simpa using hvisible),
    rtakeWhile_append_cons (by simp) (by simpa using hvisible), entry]
  simp [Text.ofString]

/-- A class is read from the lines of its outline alone. -/
theorem IsClear.readClasses_outline (h : c.IsClear) (hrest : StaysWithin (2 * depth) rest) :
    readClasses (c.outline depth ++ rest) = [c.entry] ++ readClasses rest := by
  have hbelow : ∀ line ∈ c.dependencies.toList.map fun name =>
      outlineLine (depth + 1) ("-> " ++ name), decide (2 * depth < margin line) = true := by
    intro line hline
    obtain ⟨name, _, rfl⟩ := List.mem_map.mp hline
    rw [margin_outlineLine (beginsVisibly_dependency name), decide_eq_true_iff]
    omega
  rw [outline_eq, List.cons_append, readClasses, if_pos (c.isClassLine_title depth),
    h.margin_title, List.takeWhile_append_of_pos hbelow, List.dropWhile_append_of_pos hbelow,
    hrest.takeWhile_eq_nil, hrest.dropWhile_eq_self, List.append_nil, h.ofLines_eq,
    List.singleton_append]

theorem IsClear.staysWithin_outline (h : c.IsClear) (depth : Nat) (rest : List Text) :
    StaysWithin (2 * depth) (c.outline depth ++ rest) := by
  rintro line ⟨⟩
  exact (h.margin_title depth).le

end ClassReport

/-- Parts that can be read one by one can be read below each other. -/
theorem readClasses_flatMap {α : Type} {lines : α → List Text} {entries : α → List ClassEntry}
    {xs : List α}
    (hread : ∀ x ∈ xs, ∀ rest, StaysWithin m rest →
      readClasses (lines x ++ rest) = entries x ++ readClasses rest)
    (hstays : ∀ x ∈ xs, ∀ rest, StaysWithin m (lines x ++ rest)) (hrest : StaysWithin m rest) :
    StaysWithin m (xs.flatMap lines ++ rest) ∧
      readClasses (xs.flatMap lines ++ rest) = xs.flatMap entries ++ readClasses rest := by
  induction xs with
  | nil => exact ⟨hrest, rfl⟩
  | cons x xs ih =>
    obtain ⟨hstays', hread'⟩ := ih (fun y hy => hread y (List.mem_cons_of_mem x hy))
      (fun y hy => hstays y (List.mem_cons_of_mem x hy))
    rw [List.flatMap_cons, List.append_assoc, List.flatMap_cons, List.append_assoc, ← hread']
    exact ⟨hstays x List.mem_cons_self _, hread x List.mem_cons_self _ hstays'⟩

namespace PackageReport

theorem isClassLine_title (p : PackageReport) (depth : Nat) :
    isClassLine (outlineLine depth p.title) = false := by
  rw [isClassLine, outlineLine, title, ← List.append_assoc]
  simp [Text.ofString, List.getLast?_cons]

theorem staysWithin_outline (depth : Nat) (p : PackageReport) (rest : List Text) :
    StaysWithin (2 * depth) (p.outline depth ++ rest) := by
  rw [outline_eq_cons_flatten]
  rintro line ⟨⟩
  exact (margin_outlineLine p.beginsVisibly_title depth).le

/-- The classes of a package are read from its outline, as they stand in its JSON value. -/
theorem IsClear.readClasses_outline {p : PackageReport} (h : p.IsClear)
    (hrest : StaysWithin (2 * (depth + 1)) rest) :
    readClasses (p.outline depth ++ rest) = p.json.classEntries ++ readClasses rest := by
  induction h generalizing depth rest with
  | @mk p _ hclasses _ ih =>
    -- What follows a subpackage is no further from the margin than the subpackage itself.
    obtain ⟨hstays, hsubpackages⟩ := readClasses_flatMap
      (fun q hq rest hrest => ih q (mem_of_mem_sorted hq) (StaysWithin.mono hrest (by omega)))
      (fun q _ rest => q.staysWithin_outline (depth + 1) rest) hrest
    have hclear : ∀ c ∈ p.sortedClasses, c.IsClear := fun c hc =>
      hclasses c (mem_sortedClasses.mp hc)
    obtain ⟨_, hown⟩ := readClasses_flatMap
      (fun c hc rest hrest => (hclear c hc).readClasses_outline hrest)
      (fun c hc rest => (hclear c hc).staysWithin_outline (depth + 1) rest) hstays
    calc readClasses (p.outline depth ++ rest)
      _ = readClasses (p.sortedClasses.flatMap (ClassReport.outline (depth + 1)) ++
            ((sorted p.subpackages).flatMap (outline (depth + 1)) ++ rest)) := by
        rw [outline_eq, ← title, List.cons_append, readClasses,
          if_neg (ne_true_of_eq_false (p.isClassLine_title depth)), List.append_assoc]
      _ = p.json.classEntries ++ readClasses rest := by
        rw [hown, hsubpackages, classEntries_json, List.map_eq_flatMap, List.append_assoc]

end PackageReport

namespace ProjectReport

theorem splitOn_plainText {p : ProjectReport} (h : (Report.ofProject p).IsUncut) :
    List.splitOn '\n'.toNat (Report.ofProject p).plainText = p.outline := by
  rw [Report.plainText, Text.join_eq_intercalate]
  exact List.splitOn_intercalate _ h.newline_notMem_outline (Report.outline_ne_nil _)

theorem readClasses_outline {p : ProjectReport} (h : (Report.ofProject p).IsClear) :
    readClasses ((PackageReport.sorted p.packages).flatMap (PackageReport.outline 1)) =
      p.json.classEntries := by
  obtain ⟨_, hpackages⟩ := h
  have hnil : StaysWithin (2 * 1) [] := by simp [StaysWithin]
  obtain ⟨_, hread⟩ := readClasses_flatMap
    (fun q hq rest hrest => PackageReport.IsClear.readClasses_outline
      (hpackages q (PackageReport.mem_of_mem_sorted hq)) (StaysWithin.mono hrest (by omega)))
    (fun q _ rest => q.staysWithin_outline 1 rest) hnil
  rw [List.append_nil, readClasses, List.append_nil] at hread
  rw [hread, classEntries_json]

/-- The number of classes and the classes themselves can be read from the text of a project. -/
theorem readOutline_plainText {p : ProjectReport} (h : (Report.ofProject p).IsClear) :
    readOutline (Report.ofProject p).plainText = (p.classCount, p.json.classEntries) := by
  rw [readOutline, splitOn_plainText h.isUncut, outline]
  simp only [printedCount_title, readClasses_outline h]

/-- The number in the first line of the text of a project is that of its classes, and as many are
named below it and in its JSON value: the same ones in the same order, with the same packages and
dependencies. -/
theorem plainText_agrees (p : ProjectReport) :
    (Report.ofProject p).plainText =
        Text.join "\n" (p.title :: p.items.flatMap OutlineItem.lines) ∧
      printedCount p.title = p.classCount ∧
      p.allClasses.length = p.classCount ∧
      (p.items.filterMap OutlineItem.entry?).length = p.classCount ∧
      p.json.classEntries.length = p.classCount ∧
      p.items.filterMap OutlineItem.entry? = p.json.classEntries ∧
      ((Report.ofProject p).IsClear →
        readOutline (Report.ofProject p).plainText = (p.classCount, p.json.classEntries)) := by
  have hcount := p.length_classEntries_json
  refine ⟨?_, printedCount_title p.projectName p.classCount, p.length_allClasses, ?_, hcount,
    p.filterMap_entry?_items, readOutline_plainText⟩
  · rw [Report.plainText, Report.outline, p.outline_eq_cons_items, title]
  · rw [p.filterMap_entry?_items, hcount]

def mainClass : ClassReport :=
  { className := "Main", packageName := "shop", declaredPackage := some "shop",
    dependencies := .ofList ["shop.db.Store"] }

def storeClass : ClassReport :=
  { className := "Store", packageName := "shop.db", declaredPackage := some "shop.db",
    dependencies := .ofList [] }

/-- A project with a class in a package and one in the package within. -/
def shopProject : ProjectReport :=
  { projectName := "shop", packages := [.mk "shop" [mainClass] [.mk "db" [storeClass] []]] }

theorem isClear_shopProject : (Report.ofProject shopProject).IsClear := by
  have hmain : mainClass.IsClear :=
    ⟨⟨by decide, by decide, by decide⟩, ⟨'M'.toNat, _, rfl, by decide⟩, by decide⟩
  have hstore : storeClass.IsClear :=
    ⟨⟨by decide, by decide, by decide⟩, ⟨'S'.toNat, _, rfl, by decide⟩, by decide⟩
  refine ⟨by decide, ?_⟩
  intro q hq
  obtain rfl := List.mem_singleton.mp hq
  refine .mk (by decide) ?_ ?_
  · intro c hc
    obtain rfl := List.mem_singleton.mp hc
    exact hmain
  · intro q hq
    obtain rfl := List.mem_singleton.mp hq
    refine .mk (by decide) ?_ nofun
    intro c hc
    obtain rfl := List.mem_singleton.mp hc
    exact hstore

theorem readOutline_shopProject :
    (Report.ofProject shopProject).IsClear ∧ shopProject.classCount = 2 ∧
      shopProject.json.classEntries = [mainClass.entry, storeClass.entry] ∧
      readOutline (Report.ofProject shopProject).plainText =
        (2, [mainClass.entry, storeClass.entry]) := by
  have hsorted (q : PackageReport) : PackageReport.sorted [q] = [q] := by
    simp [PackageReport.sorted, PackageReport.distinct, sortedBy]
  have hsortedClasses (name : Text) (c : ClassReport) (qs : List PackageReport) :
      (PackageReport.mk name [c] qs).sortedClasses = [c] := by
    simp [PackageReport.sortedClasses, PackageReport.distinctClasses, sortedBy,
      PackageReport.classes]
  have hdb : (PackageReport.mk "db" [storeClass] []).json.classEntries = [storeClass.entry] := by
    rw [PackageReport.classEntries_json, hsortedClasses]
    simp [PackageReport.sorted, PackageReport.distinct, sortedBy, PackageReport.subpackages]
  have hshop : (PackageReport.mk "shop" [mainClass] [.mk "db" [storeClass] []]).json.classEntries =
      [mainClass.entry, storeClass.entry] := by
    rw [PackageReport.classEntries_json, hsortedClasses, PackageReport.subpackages,
      hsorted, List.flatMap_singleton, hdb]
    rfl
  have hentries : shopProject.json.classEntries = [mainClass.entry, storeClass.entry] := by
    rw [classEntries_json, shopProject, hsorted, List.flatMap_singleton, hshop]
  have hcount : shopProject.classCount = 2 := by
    rw [← length_classEntries_json, hentries]
    rfl
  have hread := (plainText_agrees shopProject).2.2.2.2.2.2 isClear_shopProject
  rw [hcount, hentries] at hread
  exact ⟨isClear_shopProject, hcount, hentries, hread⟩

end ProjectReport

end TypeAtlas
