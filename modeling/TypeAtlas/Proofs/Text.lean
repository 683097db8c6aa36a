import Mathlib.Data.Char
import Mathlib.Data.List.Basic
import TypeAtlas.Text.Basic

namespace TypeAtlas.Text

theorem ofString_injective {s t : String} (h : ofString s = t) : s = t :=
  String.toList_inj.mp (List.map_injective_iff.mpr (fun _ _ => Char.toNat_inj.mp) h)

@[simp] theorem ofString_eq_nil_iff {s : String} : ofString s = [] ↔ s = "" := by
  simp [ofString]

theorem join_ne_nil {sep t : Text} {ts : List Text} (h : t ≠ []) : join sep (t :: ts) ≠ [] := by
  cases ts with
  | nil => exact h
  | cons u us => simp [join, h]

theorem join_eq_intercalate (sep : Text) (ts : List Text) : join sep ts = sep.intercalate ts := by
  induction ts with
  | nil => rfl
  | cons t ts ih =>
    cases ts with
    | nil => simp [join]
    | cons u us =>
      rw [join, ih, List.intercalate_cons_cons]
      simp

/-- Pieces that do not hold the separator can be told apart after they are joined. -/
theorem join_injective {sep : Nat} {ts us : List Text} (hts : ts ≠ []) (hus : us ≠ [])
    (ht : ∀ t ∈ ts, sep ∉ t) (hu : ∀ u ∈ us, sep ∉ u) (h : join [sep] ts = join [sep] us) :
    ts = us := by
  rw [join_eq_intercalate, join_eq_intercalate] at h
  calc
    ts = ([sep].intercalate ts).splitOn sep := (List.splitOn_intercalate sep ht hts).symm
    _ = ([sep].intercalate us).splitOn sep := by rw [h]
    _ = us := List.splitOn_intercalate sep hu hus

/-- A text is empty or opens with one of some characters. -/
def OpensWith (marks : List Nat) (t : Text) : Prop :=
  ∀ c ∈ t.head?, c ∈ marks

variable {marks others : List Nat} {s t u v : Text}

theorem opensWith_nil (marks : List Nat) : OpensWith marks [] := by
  simp [OpensWith]

theorem opensWith_cons {c : Nat} : OpensWith marks (c :: t) ↔ c ∈ marks := by
  simp [OpensWith]

theorem OpensWith.mono (h : OpensWith marks t) (hsub : ∀ c ∈ marks, c ∈ others) :
    OpensWith others t :=
  fun c hc => hsub c (h c hc)

theorem OpensWith.append (hs : OpensWith marks s) (ht : OpensWith marks t) :
    OpensWith marks (s ++ t) := by
  cases s with
  | nil => exact ht
  | cons c s => exact opensWith_cons.mpr (opensWith_cons.mp hs)

/-- A word ends before the first mark. -/
theorem append_inj_of_opensWith (hs : ∀ c ∈ s, c ∉ marks) (ht : ∀ c ∈ t, c ∉ marks)
    (hu : OpensWith marks u) (hv : OpensWith marks v) (h : s ++ u = t ++ v) : s = t ∧ u = v := by
  induction s generalizing t with
  | nil =>
    cases t with
    | nil => exact ⟨rfl, h⟩
    | cons c t =>
      rw [List.nil_append] at h
      subst h
      exact absurd (opensWith_cons.mp hu) (ht c List.mem_cons_self)
  | cons c s ih =>
    cases t with
    | nil =>
      rw [List.nil_append] at h
      subst h
      exact absurd (opensWith_cons.mp hv) (hs c List.mem_cons_self)
    | cons d t =>
      obtain ⟨rfl, hrest⟩ := List.cons.inj h
      obtain ⟨rfl, huv⟩ := ih (fun e he => hs e (List.mem_cons_of_mem c he))
        (fun e he => ht e (List.mem_cons_of_mem c he)) hrest
      exact ⟨rfl, huv⟩

theorem ne_cons_of_opensWith {c : Nat} (h : OpensWith marks u) (hc : c ∉ marks) : u ≠ c :: t := by
  rintro rfl
  exact hc (opensWith_cons.mp h)

/-- What stands before the first of a separator and what stands behind it. -/
theorem append_cons_inj {sep : Nat} {s t u v : Text} (hs : sep ∉ s) (ht : sep ∉ t)
    (h : s ++ sep :: u = t ++ sep :: v) : s = t ∧ u = v := by
  have hfree {w : Text} (hw : sep ∉ w) : ∀ c ∈ w, c ∉ [sep] := by
    rintro c hc hmem
    obtain rfl := List.mem_singleton.mp hmem
    exact hw hc
  have hopens (w : Text) : OpensWith [sep] (sep :: w) := opensWith_cons.mpr List.mem_cons_self
  obtain ⟨rfl, hrest⟩ := append_inj_of_opensWith (hfree hs) (hfree ht) (hopens u) (hopens v) h
  exact ⟨rfl, (List.cons.inj hrest).2⟩

end TypeAtlas.Text
