import TypeAtlas.Proofs.Text.Decoding

namespace TypeAtlas

/-- How the end of a line is written. -/
inductive LineEnd
  | lineFeed
  | carriageReturn
  | both
  deriving DecidableEq, Repr

namespace LineEnd

def bytes : LineEnd → List UInt8
  | .lineFeed => [0x0A]
  | .carriageReturn => [0x0D]
  | .both => [0x0D, 0x0A]

def text (e : LineEnd) : Text :=
  e.bytes.map UInt8.toNat

end LineEnd

/-- The list with `new` in place of each `old`. -/
def replaceEach {α : Type} [DecidableEq α] (old : α) (new : List α) (xs : List α) : List α :=
  xs.flatMap fun x => if x = old then new else [x]

section

variable {α : Type} [DecidableEq α] {old : α} {new : List α}

theorem replaceEach_append (xs ys : List α) :
    replaceEach old new (xs ++ ys) = replaceEach old new xs ++ replaceEach old new ys :=
  List.flatMap_append

theorem replaceEach_cons_self (xs : List α) :
    replaceEach old new (old :: xs) = new ++ replaceEach old new xs := by
  rw [replaceEach, List.flatMap_cons, if_pos rfl]
  rfl

theorem replaceEach_cons_of_ne {x : α} (h : x ≠ old) (xs : List α) :
    replaceEach old new (x :: xs) = x :: replaceEach old new xs := by
  rw [replaceEach, List.flatMap_cons, if_neg h]
  rfl

theorem replaceEach_self (xs : List α) : replaceEach old [old] xs = xs := by
  induction xs with
  | nil => rfl
  | cons x xs ih =>
    by_cases hx : x = old
    · rw [hx, replaceEach_cons_self, ih, List.singleton_append]
    · rw [replaceEach_cons_of_ne hx, ih]

theorem head?_replaceEach_ne {a : α} (h : a ≠ old) (new xs : List α) :
    (replaceEach old (a :: new) xs).head? ≠ some old := by
  cases xs with
  | nil => simp [replaceEach]
  | cons x xs =>
    by_cases hx : x = old
    · rw [hx, replaceEach_cons_self]
      simpa using h
    · rw [replaceEach_cons_of_ne hx]
      simpa using hx

theorem replaceEach_of_notMem {xs : List α} (h : old ∉ xs) : replaceEach old new xs = xs := by
  induction xs with
  | nil => rfl
  | cons x xs ih =>
    obtain ⟨hx, hxs⟩ := not_or.mp (List.mem_cons.not.mp h)
    rw [replaceEach_cons_of_ne (Ne.symm hx), ih hxs]

end

namespace Text

/-- Bytes below 0x80 at the start stand for themselves. -/
theorem decodeLossy_append_of_lt {ascii : List UInt8} (h : ∀ a ∈ ascii, a < 0x80)
    (bytes : List UInt8) :
    decodeLossy (ascii ++ bytes) = ascii.map UInt8.toNat ++ decodeLossy bytes := by
  induction ascii with
  | nil => rfl
  | cons a ascii ih =>
    have hstart := decodeLossy_append_cons (h a List.mem_cons_self) [] (ascii ++ bytes)
    have hrest := ih fun b hb => h b (List.mem_cons_of_mem a hb)
    rw [List.cons_append, ← List.nil_append (a :: _), hstart, hrest]
    rfl

theorem decodeLossy_lineEnd (e : LineEnd) (bs cs : List UInt8) :
    decodeLossy (bs ++ e.bytes ++ cs) = decodeLossy bs ++ e.text ++ decodeLossy cs := by
  obtain ⟨a, rest, hbytes⟩ : ∃ a rest, e.bytes = a :: rest := by cases e <;> exact ⟨_, _, rfl⟩
  have hascii : ∀ b ∈ a :: rest, b < 0x80 := by
    rw [← hbytes]
    cases e <;> simp [LineEnd.bytes]
  have hrest := decodeLossy_append_of_lt (fun b hb => hascii b (List.mem_cons_of_mem a hb)) cs
  rw [LineEnd.text, hbytes, List.append_assoc, List.cons_append,
    decodeLossy_append_cons (hascii a List.mem_cons_self), hrest, List.append_assoc,
    List.map_cons, List.cons_append]

/-- Another line end in the bytes is one in the text, whatever is broken before it. -/
theorem decodeLossy_replaceEach (e : LineEnd) (bytes : List UInt8) :
    decodeLossy (replaceEach 0x0A e.bytes bytes) = replaceEach 0x0A e.text (decodeLossy bytes) := by
  by_cases hmem : 0x0A ∈ bytes
  · obtain ⟨line, rest, hsplit, hline⟩ := List.eq_append_cons_of_mem hmem
    have hlt : rest.length < bytes.length := by
      rw [hsplit, List.length_append, List.length_cons]
      omega
    have hnone : 0x0A ∉ decodeLossy line := notMem_decodeLossy (b := 0x0A) (by decide) hline
    rw [hsplit, replaceEach_append, replaceEach_cons_self, replaceEach_of_notMem hline,
      ← List.append_assoc, decodeLossy_lineEnd, decodeLossy_replaceEach e rest,
      decodeLossy_append_cons (by decide), replaceEach_append, replaceEach_of_notMem hnone]
    exact (List.append_assoc ..).trans (congrArg _ (replaceEach_cons_self _).symm)
  · have hnone : 0x0A ∉ decodeLossy bytes := notMem_decodeLossy (b := 0x0A) (by decide) hmem
    rw [replaceEach_of_notMem hmem, replaceEach_of_notMem hnone]
termination_by bytes.length
decreasing_by exact hlt

theorem unifyLineEnds_cons_of_ne {c : Nat} (h : c ≠ 0x0D) (t : Text) :
    unifyLineEnds (c :: t) = c :: unifyLineEnds t := by
  cases t <;> exact if_neg h

/-- One end of a line is read as a line feed, if none is taken for the second half of it. -/
theorem unifyLineEnds_lineEnd (e : LineEnd) {t : Text}
    (h : e = .carriageReturn → t.head? ≠ some 0x0A) :
    unifyLineEnds (e.text ++ t) = 0x0A :: unifyLineEnds t := by
  cases e with
  | lineFeed => exact unifyLineEnds_cons_of_ne (by decide) t
  | both =>
    change unifyLineEnds (0x0D :: 0x0A :: t) = _
    simp [unifyLineEnds]
  | carriageReturn =>
    cases t with
    | nil => rfl
    | cons c t =>
      have hc : c ≠ 0x0A := by simpa using h rfl
      change unifyLineEnds (0x0D :: c :: t) = _
      simp [unifyLineEnds, hc]

/-- Whatever line ends a text has been given, they are taken back. -/
theorem unifyLineEnds_replaceEach (e : LineEnd) {t : Text} (h : 0x0D ∉ t) :
    unifyLineEnds (replaceEach 0x0A e.text t) = t := by
  induction t with
  | nil => rfl
  | cons c t ih =>
    obtain ⟨hc, ht⟩ := not_or.mp (List.mem_cons.not.mp h)
    by_cases hfeed : c = 0x0A
    · subst hfeed
      rw [replaceEach_cons_self, unifyLineEnds_lineEnd, ih ht]
      rintro rfl
      exact head?_replaceEach_ne (by decide) [] t
    · rw [replaceEach_cons_of_ne hfeed, unifyLineEnds_cons_of_ne (Ne.symm hc), ih ht]

/-- Line ends do not show in the text of a source file. -/
theorem ofBytes_replaceEach (e : LineEnd) {bytes : List UInt8} (h : 0x0D ∉ bytes) :
    ofBytes (replaceEach 0x0A e.bytes bytes) = decodeLossy bytes := by
  rw [ofBytes, decodeLossy_replaceEach,
    unifyLineEnds_replaceEach e (notMem_decodeLossy (b := 0x0D) (by decide) h)]

/-- A text without a carriage return is read as it stands. -/
theorem ofBytes_of_notMem {bytes : List UInt8} (h : 0x0D ∉ bytes) :
    ofBytes bytes = decodeLossy bytes := by
  have hfeed := ofBytes_replaceEach .lineFeed h
  rwa [LineEnd.bytes, replaceEach_self] at hfeed

end Text

end TypeAtlas
