import TypeAtlas.Text.Basic
import TypeAtlas.Text.Printable

namespace TypeAtlas.Text

/-- The last `width` hexadecimal digits of a number, in lower case. -/
def hexDigits : (width : Nat) → Nat → Text
  | 0, _ => []
  | width + 1, n =>
    let d := n % 16
    hexDigits width (n / 16) ++ [if d < 10 then '0'.toNat + d else 'a'.toNat + (d - 10)]

/-- The quote around a text: a double one only if the text holds single ones and no double one. -/
def quoteFor (t : Text) : Nat :=
  if t.contains '\''.toNat && !t.contains '"'.toNat then '"'.toNat else '\''.toNat

/-- A code point inside quotes. What cannot be printed is named by its number in two, four or eight
digits. -/
def quotedPoint (quote c : Nat) : Text :=
  if c = quote || c = '\\'.toNat then ['\\'.toNat, c]
  else if c = '\n'.toNat then ofString "\\n"
  else if c = '\r'.toNat then ofString "\\r"
  else if c = '\t'.toNat then ofString "\\t"
  else if isPrintable c then [c]
  else if c < 0x100 then ofString "\\x" ++ hexDigits 2 c
  else if c < 0x10000 then ofString "\\u" ++ hexDigits 4 c
  else ofString "\\U" ++ hexDigits 8 c

/-- A text between quotes, on one line and without any character that cannot be seen. -/
def quoted (t : Text) : Text :=
  let quote := quoteFor t
  quote :: t.flatMap (quotedPoint quote) ++ [quote]
end TypeAtlas.Text
