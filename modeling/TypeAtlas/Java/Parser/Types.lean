import TypeAtlas.Java.Parser.Grammar

namespace TypeAtlas.Java.Parser

/-- Empty pairs of brackets; their number. -/
def brackets : Parser Nat :=
  return (← whileM (accept ["[", "]"]) (pure ())).length

def qualifiedName : Parser String :=
  return ".".intercalate (← manyWith (accept ["."]) identifier)

/-- The name of a basic type, which the caller has seen. -/
def basicType : Parser Tree :=
  return .node .basicType [(.name, .word (← next).text), (.dimensions, .list [])]

/-- A reference type from its links, each a name with the arguments at it. -/
def referenceOfLinks : List (String × Tree) → Tree
  | [] => .absent
  | (name, arguments) :: links =>
    .node .referenceType
      [(.name, .word name), (.dimensions, .list []), (.arguments, arguments),
        (.inner, referenceOfLinks links)]

/-- A basic type with at least one pair of brackets, or a reference type. -/
def boxedType (g : Grammar) : Parser Tree := do
  if ← seeKind .basicType then
    let t ← basicType
    discard <| expect "["
    discard <| expect "]"
    return t.addBrackets (1 + (← brackets))
  else
    let t ← g .referenceType
    return t.addBrackets (← brackets)

def typeArgument (g : Grammar) : Parser Tree := do
  if ← accept ["?"] then
    if ← seeAnyOf ["extends", "super"] then
      let bound := (← next).text
      return .node .typeArgument [(.type, ← boxedType g), (.pattern, .word bound)]
    else return .node .typeArgument [(.pattern, .word "?")]
  else return .node .typeArgument [(.type, ← boxedType g)]

/-- Items up to a closing angle bracket, with commas between them. -/
def angled {α : Type} (item : Parser α) : Parser (List α) := do
  discard <| expect "<"
  let first ← item
  let rest ← untilM (accept [">"]) (do discard <| expect ","; item)
  return first :: rest

def typeArguments (g : Grammar) : Parser Tree :=
  return .list (← angled (typeArgument g))

/-- A link of a reference type: a name and its type arguments. -/
def typeLink (g : Grammar) : Parser (String × Tree) := do
  let name ← identifier
  if ← see ["<"] then return (name, ← typeArguments g) else return (name, .absent)

def referenceType (g : Grammar) : Parser Tree :=
  return referenceOfLinks (← manyWith (accept ["."]) (typeLink g))

def type (g : Grammar) : Parser Tree := do
  let t ←
    if ← seeKind .basicType then basicType
    else if ← seeKind .identifier then g .referenceType
    else refuse "Expected type"
  return t.addBrackets (← brackets)

def typeList (g : Grammar) : Parser (List Tree) :=
  commaList (boxedType g)

/-- Type arguments none of which is a wildcard. -/
def plainTypeArguments (g : Grammar) : Parser Unit := do
  discard <| expect "<"
  discard <| typeList g
  discard <| expect ">"

def typeArgumentsOrDiamond (g : Grammar) : Parser Unit := do
  unless ← accept ["<", ">"] do discard <| typeArguments g

def plainTypeArgumentsOrDiamond (g : Grammar) : Parser Unit := do
  unless ← accept ["<", ">"] do plainTypeArguments g

/-- Type parameters with their bounds, which say nothing about what a program uses. -/
def typeParameters (g : Grammar) : Parser Unit :=
  discard <| angled do
    discard identifier
    if ← accept ["extends"] then
      discard <| manyWith (accept ["&"]) (g .referenceType)

end TypeAtlas.Java.Parser
