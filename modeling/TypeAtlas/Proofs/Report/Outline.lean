import TypeAtlas.Proofs.Report.Blocks
import TypeAtlas.Proofs.Report.Erased
import TypeAtlas.Proofs.Text

namespace TypeAtlas

/-- There is a space within the first line of a block. -/
def headsClass (lines : List Text) : Bool :=
  lines.head?.any fun line => (content line).contains ' '.toNat

namespace ClassReport

/-- The names in the report are unbroken, and no dependency has a line end in it. -/
structure IsUnbroken (c : ClassReport) : Prop where
  className : c.className.IsUnbroken
  packageName : c.packageName.IsUnbroken
  dependencies : ∀ name ∈ c.dependencies, '\n'.toNat ∉ name

/-- No name that an outline shows of the class has a line end in it. -/
structure IsUncut (c : ClassReport) : Prop where
  className : '\n'.toNat ∉ c.className
  packageName : '\n'.toNat ∉ c.packageName
  dependencies : ∀ name ∈ c.dependencies, '\n'.toNat ∉ name

theorem IsUnbroken.isUncut {c : ClassReport} (h : c.IsUnbroken) : c.IsUncut where
  className := h.className.newline_notMem
  packageName := h.packageName.newline_notMem
  dependencies := h.dependencies

/-- The first line of a class, without its margin. -/
def title (c : ClassReport) : Text :=
  c.className ++ " (" ++ c.packageName ++ ")"

theorem outline_eq (depth : Nat) (c : ClassReport) :
    c.outline depth = outlineLine depth c.title ::
      c.dependencies.toList.map fun name => outlineLine (depth + 1) ("-> " ++ name) :=
  rfl

theorem title_eq (c : ClassReport) :
    c.title = c.className ++ ' '.toNat :: ("(" ++ c.packageName ++ ")") := by
  simp [title, Text.ofString]

theorem IsUnbroken.beginsVisibly_title {c : ClassReport} (h : c.IsUnbroken) :
    BeginsVisibly c.title := by
  rw [title_eq]
  exact h.className.beginsVisibly _

theorem beginsVisibly_dependency (name : Text) : BeginsVisibly ("-> " ++ name) :=
  ⟨'-'.toNat, _, rfl, by decide⟩

theorem IsUnbroken.isBlock_outline {c : ClassReport} (h : c.IsUnbroken) (depth : Nat) :
    IsBlock (2 * depth) (c.outline depth) := by
  refine ⟨_, _, c.outline_eq depth, margin_outlineLine h.beginsVisibly_title depth, ?_⟩
  intro line hline
  obtain ⟨name, _, rfl⟩ := List.mem_map.mp hline
  rw [margin_outlineLine (beginsVisibly_dependency name)]
  omega

theorem IsUnbroken.headsClass_outline {c : ClassReport} (h : c.IsUnbroken) (depth : Nat) :
    headsClass (c.outline depth) = true := by
  rw [outline_eq, headsClass, List.head?_cons, Option.any_some,
    content_outlineLine h.beginsVisibly_title]
  simp [title_eq]

theorem IsUncut.newline_notMem_outline {c : ClassReport} (h : c.IsUncut) {depth : Nat}
    {line : Text} (hline : line ∈ c.outline depth) : '\n'.toNat ∉ line := by
  rw [outline_eq] at hline
  obtain rfl | hbelow := List.mem_cons.mp hline
  · refine newline_notMem_outlineLine ?_ depth
    have hclass : 10 ∉ c.className := h.className
    have hpackage : 10 ∉ c.packageName := h.packageName
    simp [title, Text.ofString, hclass, hpackage]
  · obtain ⟨name, hname, rfl⟩ := List.mem_map.mp hbelow
    refine newline_notMem_outlineLine ?_ (depth + 1)
    have hdependency : 10 ∉ name := h.dependencies name hname
    simp [Text.ofString, hdependency]

/-- Two titles with the same text name the same class. -/
theorem IsUnbroken.names_of_title_eq {c d : ClassReport} (hc : c.IsUnbroken) (hd : d.IsUnbroken)
    (h : c.title = d.title) : c.className = d.className ∧ c.packageName = d.packageName := by
  rw [title_eq, title_eq] at h
  obtain ⟨hclass, hbrackets⟩ :=
    Text.append_cons_inj hc.className.space_notMem hd.className.space_notMem h
  exact ⟨hclass, List.append_cancel_left (List.append_cancel_right hbrackets)⟩

theorem IsUnbroken.erased_eq_of_outline_eq {c d : ClassReport} (hc : c.IsUnbroken)
    (hd : d.IsUnbroken) {depth : Nat} (h : c.outline depth = d.outline depth) :
    c.erased = d.erased := by
  rw [outline_eq, outline_eq] at h
  obtain ⟨htitle, hbelow⟩ := List.cons.inj h
  obtain ⟨hclass, hpackage⟩ := hc.names_of_title_eq hd (outlineLine_inj htitle)
  have hnames : c.dependencies.toList = d.dependencies.toList := by
    refine List.map_injective_iff.mpr ?_ hbelow
    intro n m hline
    exact List.append_cancel_left (outlineLine_inj hline)
  rw [erased, erased, hclass, hpackage, NameSet.toList_injective hnames]

end ClassReport

namespace PackageReport

/-- The first line of a package, without its margin. -/
def title (p : PackageReport) : Text :=
  "[" ++ p.packageName ++ "]"

/-- The blocks below the first line of a package. -/
def blocks (depth : Nat) (p : PackageReport) : List (List Text) :=
  p.sortedClasses.map (ClassReport.outline depth) ++ (sorted p.subpackages).map (outline depth)

theorem outline_eq_cons_flatten (depth : Nat) (p : PackageReport) :
    p.outline depth = outlineLine depth p.title :: (p.blocks (depth + 1)).flatten := by
  rw [outline_eq, blocks, List.flatten_append, List.flatMap_def, List.flatMap_def, title]

/-- The names in the report are unbroken, and no dependency has a line end in it. -/
def IsUnbroken (p : PackageReport) : Prop :=
  p.Everywhere Text.IsUnbroken ClassReport.IsUnbroken

theorem beginsVisibly_title (p : PackageReport) : BeginsVisibly p.title :=
  ⟨'['.toNat, _, rfl, by decide⟩

theorem isBlock_of_mem_blocks {p : PackageReport} {depth : Nat}
    (hclasses : ∀ c ∈ p.classes, c.IsUnbroken)
    (hinner : ∀ q ∈ p.subpackages, IsBlock (2 * depth) (q.outline depth)) {block : List Text}
    (h : block ∈ p.blocks depth) : IsBlock (2 * depth) block := by
  obtain hclass | hpackage := List.mem_append.mp h
  · obtain ⟨c, hc, rfl⟩ := List.mem_map.mp hclass
    exact (hclasses c (mem_sortedClasses.mp hc)).isBlock_outline depth
  · obtain ⟨q, hq, rfl⟩ := List.mem_map.mp hpackage
    exact hinner q (mem_of_mem_sorted hq)

theorem IsUnbroken.isBlock_outline {p : PackageReport} (h : p.IsUnbroken) (depth : Nat) :
    IsBlock (2 * depth) (p.outline depth) := by
  induction h generalizing depth with
  | @mk p _ hclasses _ ih =>
    refine ⟨_, _, p.outline_eq_cons_flatten depth,
      margin_outlineLine p.beginsVisibly_title depth, ?_⟩
    intro line hline
    obtain ⟨block, hblock, hline⟩ := List.mem_flatten.mp hline
    have hbelow : IsBlock (2 * (depth + 1)) block :=
      isBlock_of_mem_blocks hclasses (fun q hq => ih q hq (depth + 1)) hblock
    have := hbelow.le_margin hline
    omega

theorem IsUnbroken.isBlock_of_mem_blocks {p : PackageReport} (h : p.IsUnbroken) {depth : Nat} :
    ∀ block ∈ p.blocks depth, IsBlock (2 * depth) block := by
  obtain ⟨_, hclasses, hinner⟩ := h
  intro block hblock
  exact PackageReport.isBlock_of_mem_blocks hclasses
    (fun q hq => IsUnbroken.isBlock_outline (hinner q hq) depth) hblock

theorem IsUnbroken.headsClass_outline {p : PackageReport} (h : p.IsUnbroken) (depth : Nat) :
    headsClass (p.outline depth) = false := by
  obtain ⟨hname, _, _⟩ := h
  have hspace : 32 ∉ p.packageName := hname.space_notMem
  rw [outline_eq_cons_flatten, headsClass, List.head?_cons, Option.any_some,
    content_outlineLine p.beginsVisibly_title]
  simp [title, Text.ofString, hspace]

/-- No name that an outline shows of the package has a line end in it. -/
def IsUncut (p : PackageReport) : Prop :=
  p.Everywhere (fun name => '\n'.toNat ∉ name) ClassReport.IsUncut

theorem IsUncut.newline_notMem_outline {p : PackageReport} (h : p.IsUncut) {depth : Nat}
    {line : Text} (hline : line ∈ p.outline depth) : '\n'.toNat ∉ line := by
  induction h generalizing depth with
  | @mk p hname hclasses hinner ih =>
    rw [outline_eq_cons_flatten] at hline
    obtain rfl | hbelow := List.mem_cons.mp hline
    · have hnewline : 10 ∉ p.packageName := hname
      exact newline_notMem_outlineLine (by simp [title, Text.ofString, hnewline]) depth
    · obtain ⟨block, hblock, hline⟩ := List.mem_flatten.mp hbelow
      obtain hclass | hpackage := List.mem_append.mp hblock
      · obtain ⟨c, hc, rfl⟩ := List.mem_map.mp hclass
        exact (hclasses c (mem_sortedClasses.mp hc)).newline_notMem_outline hline
      · obtain ⟨q, hq, rfl⟩ := List.mem_map.mp hpackage
        exact ih q (mem_of_mem_sorted hq) hline

theorem IsUnbroken.headsClass_of_mem_map {p : PackageReport} (h : p.IsUnbroken) {depth : Nat} :
    (∀ block ∈ p.sortedClasses.map (ClassReport.outline depth), headsClass block = true) ∧
      ∀ block ∈ (sorted p.subpackages).map (outline depth), headsClass block = false := by
  obtain ⟨_, hclasses, hinner⟩ := h
  constructor
  · intro block hblock
    obtain ⟨c, hc, rfl⟩ := List.mem_map.mp hblock
    exact (hclasses c (mem_sortedClasses.mp hc)).headsClass_outline depth
  · intro block hblock
    obtain ⟨q, hq, rfl⟩ := List.mem_map.mp hblock
    exact IsUnbroken.headsClass_outline (hinner q (mem_of_mem_sorted hq)) depth

/-- The blocks of the classes and those of the subpackages can be told apart. -/
theorem IsUnbroken.blocks_inj {p q : PackageReport} (hp : p.IsUnbroken) (hq : q.IsUnbroken)
    {depth : Nat} (h : (p.blocks depth).flatten = (q.blocks depth).flatten) :
    p.sortedClasses.map (ClassReport.outline depth) =
        q.sortedClasses.map (ClassReport.outline depth) ∧
      (sorted p.subpackages).map (outline depth) = (sorted q.subpackages).map (outline depth) := by
  have hblocks : p.blocks depth = q.blocks depth :=
    eq_of_flatten_eq hp.isBlock_of_mem_blocks hq.isBlock_of_mem_blocks h
  obtain ⟨hclasses, hinner⟩ := hp.headsClass_of_mem_map
  obtain ⟨hclasses', hinner'⟩ := hq.headsClass_of_mem_map
  exact append_inj_of_filter headsClass hclasses hinner hclasses' hinner' hblocks

/-- Packages that are drawn alike are the same but for the declared packages. -/
theorem IsUnbroken.sameErased_of_outline_eq {p q : PackageReport} (hp : p.IsUnbroken)
    (hq : q.IsUnbroken) {depth : Nat} (h : p.outline depth = q.outline depth) : SameErased p q := by
  induction p using induction_subpackages generalizing q depth with
  | step p ih =>
    rw [outline_eq_cons_flatten, outline_eq_cons_flatten] at h
    obtain ⟨htitle, hblocks⟩ := List.cons.inj h
    have hname : p.packageName = q.packageName :=
      List.append_cancel_left (List.append_cancel_right (outlineLine_inj htitle))
    obtain ⟨hclasses, hsubpackages⟩ := hp.blocks_inj hq hblocks
    obtain ⟨_, hpclasses, hpinner⟩ := hp
    obtain ⟨_, hqclasses, hqinner⟩ := hq
    have hmatched : Matched (fun c d => c.erased = d.erased) p.sortedClasses q.sortedClasses := by
      refine (matched_of_map_eq hclasses).imp ?_
      intro c hc d hd hcd
      exact (hpclasses c (mem_sortedClasses.mp hc)).erased_eq_of_outline_eq
        (hqclasses d (mem_sortedClasses.mp hd)) hcd
    have hinner : Matched SameErased (sorted p.subpackages) (sorted q.subpackages) := by
      refine (matched_of_map_eq hsubpackages).imp ?_
      intro s hs t ht hst
      have hs' : s ∈ p.subpackages := mem_of_mem_sorted hs
      have ht' : t ∈ q.subpackages := mem_of_mem_sorted ht
      exact ih s hs' (hpinner s hs') (hqinner t ht') hst
    refine sameErased_iff.mpr ⟨hname, ?_, matched_sameErased_of_sorted hinner⟩
    intro c
    simpa using hmatched.mem_map_iff c

end PackageReport

namespace Report

/-- The names in the report are unbroken, and no dependency has a line end in it. -/
def IsUnbroken (r : Report) : Prop :=
  r.Everywhere Text.IsUnbroken ClassReport.IsUnbroken

/-- No name that an outline shows has a line end in it. -/
def IsUncut (r : Report) : Prop :=
  r.Everywhere (fun name => '\n'.toNat ∉ name) ClassReport.IsUncut

theorem IsUnbroken.isUncut {r : Report} (h : r.IsUnbroken) : r.IsUncut :=
  Everywhere.mono (fun _ hname => hname.newline_notMem) (fun _ hc => hc.isUncut) h

end Report

namespace ProjectReport

/-- The first line of a project. -/
def title (p : ProjectReport) : Text :=
  p.projectName ++ " (" ++ toString p.classCount ++ " classes)"

theorem title_eq (p : ProjectReport) :
    p.title = p.projectName ++ ' '.toNat ::
      ("(" ++ (toString p.classCount : Text) ++ " classes)") := by
  simp [title, Text.ofString]

theorem outline_eq (p : ProjectReport) :
    p.outline = p.title ::
      ((PackageReport.sorted p.packages).map (PackageReport.outline 1)).flatten := by
  rw [outline, List.flatMap_def, title]

end ProjectReport

namespace Report

theorem outline_ne_nil (r : Report) : r.outline ≠ [] := by
  cases r with
  | ofClass c => exact List.cons_ne_nil _ _
  | ofPackage p =>
    rw [outline, PackageReport.outline_eq_cons_flatten]
    exact List.cons_ne_nil _ _
  | ofProject p => exact List.cons_ne_nil _ _

theorem notMem_numeral {c : Char} (hc : c.isDigit = false) (n : Nat) :
    c.toNat ∉ (toString n : Text) := by
  intro h
  obtain ⟨d, hd, hnat⟩ := List.mem_map.mp h
  obtain rfl : d = c := Char.toNat_inj.mp hnat
  have hdigit : d.isDigit = true := by
    rw [Nat.toString_eq_repr, Nat.toList_repr] at hd
    exact Nat.isDigit_of_mem_toDigits (by decide) (by decide) hd
  simp [hc] at hdigit

theorem IsUncut.newline_notMem_outline {r : Report} (h : r.IsUncut) :
    ∀ line ∈ r.outline, '\n'.toNat ∉ line := by
  intro line hline
  cases r with
  | ofClass c => exact ClassReport.IsUncut.newline_notMem_outline h hline
  | ofPackage p => exact PackageReport.IsUncut.newline_notMem_outline h hline
  | ofProject p =>
    obtain ⟨hname, hpackages⟩ := h
    rw [outline, ProjectReport.outline_eq] at hline
    obtain rfl | hbelow := List.mem_cons.mp hline
    · have hproject : 10 ∉ p.projectName := hname
      have hcount : '\n'.toNat ∉ (toString p.classCount : Text) := notMem_numeral (by decide) _
      rw [ProjectReport.title]
      simp only [List.mem_append, not_or]
      exact ⟨⟨⟨hproject, by decide⟩, hcount⟩, by decide⟩
    · obtain ⟨block, hblock, hline⟩ := List.mem_flatten.mp hbelow
      obtain ⟨q, hq, rfl⟩ := List.mem_map.mp hblock
      exact PackageReport.IsUncut.newline_notMem_outline
        (hpackages q (PackageReport.mem_of_mem_sorted hq)) hline

theorem IsUnbroken.newline_notMem_outline {r : Report} (h : r.IsUnbroken) :
    ∀ line ∈ r.outline, '\n'.toNat ∉ line :=
  h.isUncut.newline_notMem_outline

/-- The number of spaces in the first line of an outline, which tells the kind of the report. -/
def spaces : Report → Nat
  | .ofClass _ => 1
  | .ofPackage _ => 0
  | .ofProject _ => 2

theorem IsUnbroken.exists_outline_eq_cons {r : Report} (h : r.IsUnbroken) :
    ∃ line rest, r.outline = line :: rest ∧ line.count ' '.toNat = r.spaces := by
  cases r with
  | ofClass c =>
    obtain ⟨hclass, hpackage, _⟩ := h
    refine ⟨c.title, _, c.outline_eq 0, ?_⟩
    have hnone : c.className.count 32 = 0 := List.count_eq_zero.mpr hclass.space_notMem
    have hnone' : c.packageName.count 32 = 0 := List.count_eq_zero.mpr hpackage.space_notMem
    simp [ClassReport.title, Text.ofString, spaces, hnone, hnone']
  | ofPackage p =>
    obtain ⟨hname, _, _⟩ := h
    refine ⟨p.title, _, p.outline_eq_cons_flatten 0, ?_⟩
    have hnone : p.packageName.count 32 = 0 := List.count_eq_zero.mpr hname.space_notMem
    simp [PackageReport.title, Text.ofString, spaces, hnone]
  | ofProject p =>
    obtain ⟨hname, _⟩ := h
    refine ⟨p.title, _, p.outline_eq, ?_⟩
    have hnone : p.projectName.count 32 = 0 := List.count_eq_zero.mpr hname.space_notMem
    have hdigits : (toString p.classCount : Text).count ' '.toNat = 0 :=
      List.count_eq_zero.mpr (notMem_numeral (by decide) _)
    have hbracket : (Text.ofString " (").count ' '.toNat = 1 := by decide
    have hword : (Text.ofString " classes)").count ' '.toNat = 1 := by decide
    rw [ProjectReport.title, List.count_append, List.count_append, List.count_append, hdigits,
      hbracket, hword]
    simp [spaces, hnone]

/-- Outlines with the same lines are those of reports of the same kind. -/
theorem IsUnbroken.spaces_eq_of_outline_eq {r s : Report} (hr : r.IsUnbroken) (hs : s.IsUnbroken)
    (h : r.outline = s.outline) : r.spaces = s.spaces := by
  obtain ⟨line, rest, houtline, hcount⟩ := hr.exists_outline_eq_cons
  obtain ⟨line', rest', houtline', hcount'⟩ := hs.exists_outline_eq_cons
  rw [houtline, houtline'] at h
  rw [← hcount, ← hcount', (List.cons.inj h).1]

theorem IsUnbroken.same_erased_of_outline_eq {r s : Report} (hr : r.IsUnbroken) (hs : s.IsUnbroken)
    (h : r.outline = s.outline) : r.erased.same s.erased = true := by
  have hkind := hr.spaces_eq_of_outline_eq hs h
  cases r with
  | ofClass c =>
    cases s with
    | ofClass d =>
      have heq : c.erased = d.erased := ClassReport.IsUnbroken.erased_eq_of_outline_eq hr hs h
      simp [erased, same, heq]
    | ofPackage q => cases hkind
    | ofProject q => cases hkind
  | ofPackage p =>
    cases s with
    | ofPackage q => exact PackageReport.IsUnbroken.sameErased_of_outline_eq hr hs h
    | ofClass d => cases hkind
    | ofProject q => cases hkind
  | ofProject p =>
    cases s with
    | ofProject q =>
      obtain ⟨hname, hpackages⟩ := hr
      obtain ⟨hname', hpackages'⟩ := hs
      rw [outline, outline, p.outline_eq, q.outline_eq] at h
      obtain ⟨htitle, hblocks⟩ := List.cons.inj h
      rw [p.title_eq, q.title_eq] at htitle
      obtain ⟨hproject, _⟩ :=
        Text.append_cons_inj hname.space_notMem hname'.space_notMem htitle
      have hblock : ∀ {ps : List PackageReport}, (∀ p ∈ ps, p.IsUnbroken) →
          ∀ block ∈ (PackageReport.sorted ps).map (PackageReport.outline 1), IsBlock 2 block := by
        intro ps hps block hblock
        obtain ⟨p, hp, rfl⟩ := List.mem_map.mp hblock
        exact (hps p (PackageReport.mem_of_mem_sorted hp)).isBlock_outline 1
      have houtlines := eq_of_flatten_eq (hblock hpackages) (hblock hpackages') hblocks
      have hsorted : Matched PackageReport.SameErased (PackageReport.sorted p.packages)
          (PackageReport.sorted q.packages) := by
        refine (matched_of_map_eq houtlines).imp ?_
        intro s hs t ht hst
        have hs' := hpackages s (PackageReport.mem_of_mem_sorted hs)
        have ht' := hpackages' t (PackageReport.mem_of_mem_sorted ht)
        exact PackageReport.IsUnbroken.sameErased_of_outline_eq hs' ht' hst
      refine same_ofProject_iff.mpr ⟨hproject, ?_⟩
      simp only [PackageReport.erasedAll_eq, matched_map_iff]
      exact PackageReport.matched_sameErased_of_sorted hsorted
    | ofClass d => cases hkind
    | ofPackage q => cases hkind

/-- Reports with the same plain text are of the same kind and the same but for the packages that the
files declare. -/
theorem same_erased_of_plainText_eq {r s : Report} (hr : r.IsUnbroken) (hs : s.IsUnbroken)
    (h : r.plainText = s.plainText) : r.erased.same s.erased = true := by
  have houtline : r.outline = s.outline :=
    Text.join_injective r.outline_ne_nil s.outline_ne_nil hr.newline_notMem_outline
      hs.newline_notMem_outline h
  exact hr.same_erased_of_outline_eq hs houtline

def appClass (declaredPackage : Option Text) : ClassReport :=
  { className := "A", packageName := "app", declaredPackage := declaredPackage,
    dependencies := .ofList ["p.X"] }

/-- A package that holds a class and an empty package. -/
def appReport (declaredPackage : Option Text) : Report :=
  .ofPackage (.mk "app" [appClass declaredPackage] [.mk "core" [] []])

theorem isUnbroken_appReport (declaredPackage : Option Text) :
    (appReport declaredPackage).IsUnbroken := by
  have happ : Text.IsUnbroken "app" := ⟨by decide, by decide, by decide⟩
  have hcore : Text.IsUnbroken "core" := ⟨by decide, by decide, by decide⟩
  have hclass : Text.IsUnbroken "A" := ⟨by decide, by decide, by decide⟩
  refine .mk happ ?_ ?_
  · intro c hc
    obtain rfl : c = appClass declaredPackage := List.mem_singleton.mp hc
    refine ⟨hclass, happ, ?_⟩
    intro name hname
    obtain rfl : name = Text.ofString "p.X" := by simpa [appClass] using hname
    decide
  · intro q hq
    obtain rfl := List.mem_singleton.mp hq
    exact .mk hcore nofun nofun

theorem plainText_appReport :
    (appReport none).plainText = (appReport (some "app")).plainText := by
  simp [plainText, outline, appReport, appClass, PackageReport.outline_eq,
    PackageReport.sortedClasses, PackageReport.sorted, PackageReport.distinctClasses,
    PackageReport.distinct, sortedBy, PackageReport.classes, PackageReport.subpackages,
    PackageReport.packageName, ClassReport.outline]

theorem same_erased_appReport :
    (appReport none).IsUnbroken ∧ (appReport (some "app")).IsUnbroken ∧
      (appReport none).plainText = (appReport (some "app")).plainText ∧
      (appReport none).erased.same (appReport (some "app")).erased = true :=
  ⟨isUnbroken_appReport none, isUnbroken_appReport (some "app"), plainText_appReport,
    same_erased_of_plainText_eq (isUnbroken_appReport none) (isUnbroken_appReport (some "app"))
      plainText_appReport⟩

end Report

end TypeAtlas
