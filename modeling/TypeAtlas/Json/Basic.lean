import TypeAtlas.Text.Basic

namespace TypeAtlas

/-- A JSON value. The members of an object keep their order, and a number keeps whether it is
written as an integer; a decimal is its sign, its digits and a power of ten. -/
inductive Json
  | null
  | bool (b : Bool)
  | integer (n : Int)
  | decimal (isNegative : Bool) (digits : Nat) (exponent : Int)
  | text (t : Text)
  | array (items : List Json)
  | object (members : List (Text × Json))
  deriving Repr, Inhabited

namespace Json

def string (s : String) : Json :=
  .text (Text.ofString s)

/-- The value of the last member with the given name. -/
def get? (j : Json) (name : Text) : Option Json :=
  match j with
  | .object members => (members.reverse.find? (·.1 == name)).map (·.2)
  | _ => none

end Json

end TypeAtlas
