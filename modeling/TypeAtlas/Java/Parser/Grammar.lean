import TypeAtlas.Java.Parser.Cursor

namespace TypeAtlas.Java

/-- The phrases that may contain themselves. -/
inductive Phrase
  | referenceType
  | annotationUse
  | elementValue
  | variableValue
  | expression
  | conditional
  | operand
  | block
  | statement
  | typeDeclaration
  | classBody
  | enumBody
  | interfaceBody
  | annotationBody
  deriving DecidableEq, Repr

/-- A parser for each phrase. The parsers below take one for the phrases inside the one they read,
and `Grammar.ofDepth` ties the knot. -/
abbrev Grammar := Phrase → Parser Tree

/-- The tree of a row of parts, of which only what is declared inside them matters. -/
def Tree.row (parts : List Tree) : Tree :=
  .list parts

/-- A primary with what belongs to itself, and with no selectors yet. -/
def Tree.primary (own : Tree) : Tree :=
  .node .primary [(.value, own), (.selectors, .list [])]

/-- Puts selectors after an expression. A primary has those that were put last, so that the
selectors inside a pair of parentheses give way to the ones behind it. No other expression has
any. -/
def Tree.select (selectors : List Tree) : Tree → Tree
  | .node .primary parts =>
    .node .primary (parts.map fun
      | (.selectors, _) => (.selectors, .list selectors)
      | entry => entry)
  | t => t

/-- The tree for `n` pairs of brackets. -/
def Tree.brackets (n : Nat) : Tree :=
  .list (List.replicate n .absent)

/-- Adds `n` pairs of brackets to a type. -/
def Tree.addBrackets (n : Nat) : Tree → Tree
  | .node k parts =>
    .node k (parts.map fun
      | (.dimensions, .list ds) => (.dimensions, .list (ds ++ List.replicate n .absent))
      | entry => entry)
  | t => t

end TypeAtlas.Java
