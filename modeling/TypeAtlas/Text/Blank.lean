import TypeAtlas.Text.Basic
import TypeAtlas.Text.Ranges

namespace TypeAtlas.Text

/-- The blank code points: the separators of Unicode, and the controls from tab to carriage return,
from file separator to unit separator, and next line. -/
def blanks : Ranges := [
  (0x9, 0xd), (0x1c, 0x20), (0x85, 0x85), (0xa0, 0xa0), (0x1680, 0x1680), (0x2000, 0x200a),
  (0x2028, 0x2029), (0x202f, 0x202f), (0x205f, 0x205f), (0x3000, 0x3000)]

def isBlank (c : Nat) : Bool :=
  blanks.contains c

/-- The text without the blanks at its two ends. -/
def strip (t : Text) : Text :=
  ((t.dropWhile isBlank).reverse.dropWhile isBlank).reverse

end TypeAtlas.Text
