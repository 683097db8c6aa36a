namespace TypeAtlas

/-- A text as its code points. Unlike a `String` it may hold surrogates, which a unicode escape in
a source file can name. -/
abbrev Text := List Nat

namespace Text

def ofString (s : String) : Text :=
  s.toList.map Char.toNat

instance : Coe String Text := ⟨ofString⟩

/-- The string with the same code points; a surrogate has no place in a string and becomes the
replacement character. -/
def toString (t : Text) : String :=
  String.ofList (t.map fun c => if c.isValidChar then Char.ofNat c else '\uFFFD')

/-- The text with `sep` between the parts. -/
def join (sep : Text) : List Text → Text
  | [] => []
  | [t] => t
  | t :: ts => t ++ sep ++ join sep ts

/-- What stands between the occurrences of `sep`. There is always a first piece. -/
def splitOn {α : Type} [DecidableEq α] (sep : α) : List α → List (List α)
  | [] => [[]]
  | c :: t =>
    if c = sep then [] :: splitOn sep t
    else match splitOn sep t with
      | [] => [[c]]
      | piece :: pieces => (c :: piece) :: pieces

end Text

end TypeAtlas
