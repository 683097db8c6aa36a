import TypeAtlas.Java.LexFault
import TypeAtlas.Text.Numeral

namespace TypeAtlas.Java

/-- The least text that starts a unicode escape and breaks off there is written twice: once as it
was read and once for the missing code point. -/
def unescapeFrom (text : Text) (segment : Text) : Text → Except LexFault Text
  | [] => .ok segment.reverse
  | c :: rest =>
    if c = '\\'.toNat then
      match rest with
      | [] => .ok (c :: segment).reverse
      | u :: after =>
        if u = 'u'.toNat then
          match _h : after.dropWhile (· = 'u'.toNat) with
          | [] => .ok (segment.reverse ++ segment.reverse ++ c :: rest)
          | d :: more =>
            let digits := (d :: more).take 4
            match Text.integer? 16 digits with
            | none => .error (.malformed .badEscape digits 1 (excerptAt text 0))
            | some (.negSucc _) => .error .negativeEscape
            | some (.ofNat n) =>
              (unescapeFrom text [] (more.drop 3)).map (segment.reverse ++ n :: ·)
        else unescapeFrom text (u :: c :: segment) after
    else unescapeFrom text (c :: segment) rest
termination_by t => t.length
decreasing_by
  · have := (List.dropWhile_sublist (l := after) (· = 'u'.toNat)).length_le
    rw [_h] at this
    simp at this ⊢
    omega
  · simp only [List.length_cons]
    omega
  · simp

/-- The text with its unicode escapes replaced by the code points they name. A backslash shields
the character after it. -/
def unescape (text : Text) : Except LexFault Text :=
  unescapeFrom text [] text

end TypeAtlas.Java
