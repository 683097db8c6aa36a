import TypeAtlas.Proofs.Json.Numbers
import TypeAtlas.Proofs.Json.Quoted

namespace TypeAtlas.Json

def IsAscii (cs : List Char) : Prop :=
  ∀ c ∈ cs, c.toNat < 128

@[simp] theorem isAscii_nil : IsAscii [] := by
  simp [IsAscii]

@[simp] theorem isAscii_cons {c : Char} {cs : List Char} :
    IsAscii (c :: cs) ↔ c.toNat < 128 ∧ IsAscii cs := by
  simp [IsAscii]

@[simp] theorem isAscii_append {cs ds : List Char} :
    IsAscii (cs ++ ds) ↔ IsAscii cs ∧ IsAscii ds := by
  simp [IsAscii, or_imp, forall_and]

@[simp] theorem isAscii_gap (l : Layout) (depth : Nat) : IsAscii (l.gap depth) := by
  cases l with
  | line => exact isAscii_nil
  | lines =>
    refine isAscii_cons.mpr ⟨by decide, ?_⟩
    intro c hc
    rw [List.eq_of_mem_replicate hc]
    decide

theorem toNat_hexDigit_lt (n : Nat) : (hexDigit (n % 16)).toNat < 128 := by
  have hall : ∀ d < 16, (hexDigit d).toNat < 128 := by decide
  exact hall (n % 16) (Nat.mod_lt n (by decide))

theorem isAscii_escapeUnit (u : Nat) : IsAscii (escapeUnit u) := by
  simp [escapeUnit, toNat_hexDigit_lt]

/-- Every code point is written in ASCII, surrogates included. -/
theorem isAscii_escapePoint (c : Nat) : IsAscii (escapePoint c) := by
  obtain ⟨letter, hmem, _, htext⟩ | ⟨_, _, _, hhigh, htext⟩ | ⟨_, htext⟩ | ⟨_, htext⟩ :=
    escapePoint_cases c
  · simp only [List.mem_cons, List.not_mem_nil, or_false] at hmem
    rw [htext]
    obtain rfl | rfl | rfl | rfl | rfl | rfl | rfl := hmem
    all_goals simp
  · have hall : ∀ d < 127, (Char.ofNat d).toNat < 128 := by decide
    rw [htext]
    exact isAscii_cons.mpr ⟨hall c (by omega), isAscii_nil⟩
  · rw [htext]
    exact isAscii_escapeUnit c
  · rw [htext]
    exact isAscii_append.mpr ⟨isAscii_escapeUnit _, isAscii_escapeUnit _⟩

@[simp] theorem isAscii_quoted (t : Text) : IsAscii (quoted t) := by
  have hpoints : IsAscii (t.flatMap escapePoint) := by
    intro c hc
    obtain ⟨p, _, hcp⟩ := List.mem_flatMap.mp hc
    exact isAscii_escapePoint p c hcp
  simp [quoted, hpoints]

theorem isAscii_toDigits (n : Nat) : IsAscii (Nat.toDigits 10 n) := by
  intro c hc
  have hdigit : c.isDigit = true := isDigit_of_mem_toDigits hc
  have hbound : c.val ≤ 57 := by
    simp only [Char.isDigit, Bool.and_eq_true, decide_eq_true_eq] at hdigit
    exact hdigit.2
  have hnat : c.toNat ≤ 57 := hbound
  omega

theorem isAscii_toString (n : Int) : IsAscii (toString n).toList := by
  cases n with
  | ofNat n =>
    have htext : (toString (Int.ofNat n)).toList = Nat.toDigits 10 n := toList_toString_natCast n
    rw [htext]
    exact isAscii_toDigits n
  | negSucc n =>
    rw [toList_toString_negSucc]
    exact isAscii_cons.mpr ⟨by decide, isAscii_toDigits (n + 1)⟩

theorem isAscii_decimalText (isNegative : Bool) (digits : Nat) (exponent : Int) :
    IsAscii (decimalText isNegative digits exponent) := by
  have hexponent := isAscii_toString exponent
  have hdigits : IsAscii (toString digits).toList := by
    simpa using isAscii_toDigits digits
  have hsign : IsAscii (if isNegative then ['-'] else []) := by cases isNegative <;> simp
  have hletter : ('e' : Char).toNat < 128 := by decide
  simp only [decimalText, isAscii_append, isAscii_cons]
  exact ⟨⟨hsign, hdigits⟩, hletter, hexponent⟩

mutual

/-- What is written for a value is ASCII. -/
theorem isAscii_write (l : Layout) (depth : Nat) : ∀ j : Json, IsAscii (write l depth j)
  | .null => by simp [write]
  | .bool true => by simp [write]
  | .bool false => by simp [write]
  | .integer n => by
    rw [write]
    exact isAscii_toString n
  | .decimal isNegative digits exponent => by
    rw [write]
    exact isAscii_decimalText isNegative digits exponent
  | .text t => by simp [write]
  | .array [] => by simp [write]
  | .array (j :: js) => by
    have hfirst := isAscii_write l (depth + 1) j
    have hothers := isAscii_writeItems l (depth + 1) js
    simp [write, hfirst, hothers]
  | .object [] => by simp [write]
  | .object ((k, j) :: ms) => by
    have hfirst := isAscii_write l (depth + 1) j
    have hothers := isAscii_writeMembers l (depth + 1) ms
    simp [write, hfirst, hothers]

theorem isAscii_writeItems (l : Layout) (depth : Nat) :
    ∀ js : List Json, IsAscii (writeItems l depth js)
  | [] => by simp [writeItems]
  | j :: js => by
    have hfirst := isAscii_write l depth j
    have hothers := isAscii_writeItems l depth js
    simp [writeItems, hfirst, hothers]

theorem isAscii_writeMembers (l : Layout) (depth : Nat) :
    ∀ ms : List (Text × Json), IsAscii (writeMembers l depth ms)
  | [] => by simp [writeMembers]
  | (k, j) :: ms => by
    have hfirst := isAscii_write l depth j
    have hothers := isAscii_writeMembers l depth ms
    simp [writeMembers, hfirst, hothers]

end

end TypeAtlas.Json
