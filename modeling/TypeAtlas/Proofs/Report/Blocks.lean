import Mathlib.Data.List.TakeWhile
import TypeAtlas.Report.Outline

namespace TypeAtlas

/-- The text is not empty, and it has neither a space nor a line end in it. -/
structure Text.IsUnbroken (t : Text) : Prop where
  ne_nil : t ≠ []
  space_notMem : ' '.toNat ∉ t
  newline_notMem : '\n'.toNat ∉ t

/-- How far from the margin a line starts. -/
def margin (line : Text) : Nat :=
  (line.takeWhile (· = ' '.toNat)).length

/-- What stands on a line behind the spaces at its start. -/
def content (line : Text) : Text :=
  line.dropWhile (· = ' '.toNat)

/-- The text starts with something else than a space. -/
def BeginsVisibly (s : Text) : Prop :=
  ∃ c t, s = c :: t ∧ c ≠ ' '.toNat

theorem Text.IsUnbroken.beginsVisibly {name : Text} (h : name.IsUnbroken) (s : Text) :
    BeginsVisibly (name ++ s) := by
  obtain ⟨c, t, rfl⟩ := List.exists_cons_of_ne_nil h.ne_nil
  refine ⟨c, t ++ s, rfl, ?_⟩
  rintro rfl
  exact h.space_notMem List.mem_cons_self

theorem margin_outlineLine {s : Text} (h : BeginsVisibly s) (depth : Nat) :
    margin (outlineLine depth s) = 2 * depth := by
  obtain ⟨c, t, rfl, hc⟩ := h
  have hfirst : (c :: t).takeWhile (· = ' '.toNat) = [] :=
    List.takeWhile_cons_of_neg (by simpa using hc)
  rw [margin, outlineLine, List.takeWhile_append_of_pos (by simp), hfirst]
  simp

theorem content_outlineLine {s : Text} (h : BeginsVisibly s) (depth : Nat) :
    content (outlineLine depth s) = s := by
  obtain ⟨c, t, rfl, hc⟩ := h
  rw [content, outlineLine, List.dropWhile_append_of_pos (by simp)]
  exact List.dropWhile_cons_of_neg (by simpa using hc)

theorem outlineLine_inj {depth : Nat} {s t : Text} (h : outlineLine depth s = outlineLine depth t) :
    s = t :=
  List.append_cancel_left h

theorem newline_notMem_outlineLine {s : Text} (h : '\n'.toNat ∉ s) (depth : Nat) :
    '\n'.toNat ∉ outlineLine depth s := by
  rw [outlineLine, List.mem_append, not_or]
  refine ⟨?_, h⟩
  intro hmem
  exact absurd (List.eq_of_mem_replicate hmem) (by decide)

/-- A line with the given margin, and below it lines with greater ones. -/
def IsBlock (m : Nat) (lines : List Text) : Prop :=
  ∃ head rest, lines = head :: rest ∧ margin head = m ∧ ∀ line ∈ rest, m < margin line

theorem IsBlock.le_margin {m : Nat} {lines : List Text} (h : IsBlock m lines) {line : Text}
    (hline : line ∈ lines) : m ≤ margin line := by
  obtain ⟨head, rest, rfl, hhead, hrest⟩ := h
  obtain rfl | hbelow := List.mem_cons.mp hline
  · exact Nat.le_of_eq hhead.symm
  · exact Nat.le_of_lt (hrest line hbelow)

/-- The next block starts at the first line with a margin that is not greater. -/
theorem takeWhile_append_flatten {m : Nat} {rest : List Text} {blocks : List (List Text)}
    (hrest : ∀ line ∈ rest, m < margin line) (hblocks : ∀ b ∈ blocks, IsBlock m b) :
    (rest ++ blocks.flatten).takeWhile (fun line => m < margin line) = rest := by
  rw [List.takeWhile_append_of_pos (by simpa using hrest)]
  cases blocks with
  | nil => simp
  | cons b blocks =>
    obtain ⟨head, below, rfl, hhead, _⟩ := hblocks b List.mem_cons_self
    simp [hhead]

/-- Blocks with the same margin can be told apart when they stand below each other. -/
theorem eq_of_flatten_eq {m : Nat} {bs cs : List (List Text)} (hbs : ∀ b ∈ bs, IsBlock m b)
    (hcs : ∀ c ∈ cs, IsBlock m c) (h : bs.flatten = cs.flatten) : bs = cs := by
  induction bs generalizing cs with
  | nil =>
    cases cs with
    | nil => rfl
    | cons c cs =>
      obtain ⟨head, rest, rfl, _⟩ := hcs c List.mem_cons_self
      simp at h
  | cons b bs ih =>
    obtain ⟨head, rest, rfl, _, hrest⟩ := hbs b List.mem_cons_self
    cases cs with
    | nil => simp at h
    | cons c cs =>
      obtain ⟨head', rest', rfl, _, hrest'⟩ := hcs c List.mem_cons_self
      have hbs' : ∀ b ∈ bs, IsBlock m b := fun b hb => hbs b (List.mem_cons_of_mem _ hb)
      have hcs' : ∀ c ∈ cs, IsBlock m c := fun c hc => hcs c (List.mem_cons_of_mem _ hc)
      simp only [List.flatten_cons, List.cons_append] at h
      obtain ⟨rfl, htail⟩ := List.cons.inj h
      have hbelow : rest = rest' := by
        rw [← takeWhile_append_flatten hrest hbs', htail, takeWhile_append_flatten hrest' hcs']
      subst hbelow
      rw [ih hbs' hcs' (List.append_cancel_left htail)]

/-- Where the members of one kind stand before those of another, both can be told apart. -/
theorem append_inj_of_filter {α : Type} (f : α → Bool) {xs ys xs' ys' : List α}
    (hxs : ∀ x ∈ xs, f x = true) (hys : ∀ y ∈ ys, f y = false) (hxs' : ∀ x ∈ xs', f x = true)
    (hys' : ∀ y ∈ ys', f y = false) (h : xs ++ ys = xs' ++ ys') : xs = xs' ∧ ys = ys' := by
  have hfilter := congrArg (List.filter f) h
  have hnone : ys.filter f = [] := List.filter_eq_nil_iff.mpr (by simpa using hys)
  have hnone' : ys'.filter f = [] := List.filter_eq_nil_iff.mpr (by simpa using hys')
  rw [List.filter_append, List.filter_append, List.filter_eq_self.mpr hxs,
    List.filter_eq_self.mpr hxs', hnone, hnone', List.append_nil, List.append_nil] at hfilter
  subst hfilter
  exact ⟨rfl, List.append_cancel_left h⟩

end TypeAtlas
