import TypeAtlas.Java.Parser.Declarations

namespace TypeAtlas.Java

/-- The parsers for all phrases, for trees of a bounded depth. -/
def Grammar.ofDepth : Nat → Grammar
  | 0, _ => throw .tooDeep
  | n + 1, phrase =>
    let g := Grammar.ofDepth n
    match phrase with
    | .referenceType => Parser.referenceType g
    | .annotationUse => Parser.annotationUse g
    | .elementValue => Parser.elementValue g
    | .variableValue => Parser.variableValue g
    | .expression => Parser.expression g
    | .conditional => Parser.conditional g
    | .operand => Parser.operand g
    | .block => Parser.block g
    | .statement => Parser.statement g
    | .typeDeclaration => Parser.typeDeclaration g
    | .classBody => Parser.braced (Parser.classMember g)
    | .enumBody => Parser.enumBody g
    | .interfaceBody => Parser.braced (Parser.interfaceMember g)
    | .annotationBody => Parser.braced (Parser.annotationMember g)

namespace Parser

/-- The package clause, if there is one. Annotations that belong to no package are read again with
the first type. -/
def packageClause (g : Grammar) : Parser Tree := do
  pushMark
  let notes ← if ← seeAnnotationUse 0 then annotations g else pure []
  if ← accept ["package"] then
    keep
    let name ← qualifiedName
    discard <| expect ";"
    return .node .packageDeclaration [(.annotations, .list notes), (.name, .word name)]
  else
    rewind
    return .absent

/-- A name in an import and whether a star comes after it; the answer says also whether another name
does. -/
def importName : Parser ((String × Bool) × Bool) := do
  let name ← identifier
  if ← accept ["."] then
    let isWildcard ← accept ["*"]
    return ((name, isWildcard), !isWildcard)
  else return ((name, false), false)

def importClause : Parser Tree := do
  discard <| expect "import"
  let isStatic ← accept ["static"]
  let names ← whileMore do
    let (name, more) ← importName
    return ([name], more)
  discard <| expect ";"
  return .node .importDeclaration
    [(.path, .word (".".intercalate (names.map (·.1)))), (.isStatic, .flag isStatic),
      (.isWildcard, .flag (names.any (·.2)))]

/-- A type declaration; a lone semicolon declares nothing. An end of the tokens is refused like a
wrong token. -/
def unitMember (g : Grammar) : Parser Tree := fun c =>
  let p : Parser Tree := do if ← accept [";"] then return .row [] else g .typeDeclaration
  match p c with
  | .error .endOfTokens c => (refuse "Unexpected end of input" : Parser Tree) c
  | result => result

def compilationUnit (g : Grammar) : Parser Tree := do
  let package ← packageClause g
  let imports ← whileM (see ["import"]) importClause
  let types ← untilM atEnd (unitMember g)
  return .node .compilationUnit
    [(.package, package), (.imports, .list imports), (.types, .list types)]

end Parser

/-- The syntax tree of a whole text. A phrase that holds another is longer than it unless both are
links of one of the chains of the grammar, none of which has eight links. -/
def parseTokens (tokens : List Token) : Except ParseFault Tree :=
  match Parser.compilationUnit (Grammar.ofDepth (8 * (tokens.length + 1))) { rest := tokens } with
  | .ok t _ => .ok t
  | .error e _ => .error e

end TypeAtlas.Java
