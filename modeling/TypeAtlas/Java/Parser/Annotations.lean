import TypeAtlas.Java.Parser.Types

namespace TypeAtlas.Java.Parser

/-- The arguments of an annotation: named values, or a single value without a name. -/
def annotationArguments (g : Grammar) : Parser Tree := do
  if ← see [.identifier, "="] then
    return .list (← commaList do
      discard identifier
      discard <| expect "="
      g .elementValue)
  else g .elementValue

def annotationUse (g : Grammar) : Parser Tree := do
  discard <| expect "@"
  let name ← qualifiedName
  if ← accept ["("] then
    let element ← if ← see [")"] then pure .absent else annotationArguments g
    discard <| expect ")"
    return .node .annotationUse [(.name, .word name), (.element, element)]
  else return .node .annotationUse [(.name, .word name)]

/-- The values between braces. A comma may stand before the closing one. -/
def elementValues (g : Grammar) : Parser Tree := do
  discard <| expect openBrace
  if ← accept [closeBrace] then return .list []
  let first ← g .elementValue
  let done : Parser Bool := do return (← see [closeBrace]) || (← see [",", closeBrace])
  let rest ← untilM done (do discard <| expect ","; g .elementValue)
  discard <| accept [","]
  discard <| expect closeBrace
  return .list (first :: rest)

def elementValue (g : Grammar) : Parser Tree := do
  if ← seeAnnotationUse 0 then g .annotationUse
  else if ← see [openBrace] then elementValues g
  else g .conditional

/-- Annotations, of which there is at least one. -/
def annotations (g : Grammar) : Parser (List Tree) :=
  manyWith (seeAnnotationUse 0) (g .annotationUse)

/-- Modifiers and annotations in any order; the annotations. -/
def modifiers (g : Grammar) : Parser (List Tree) := do
  let found ← untilNone do
    if ← seeKind .modifier then
      discard next
      return some []
    else if ← seeAnnotationUse 0 then return some [← g .annotationUse]
    else return none
  return found.flatten

/-- What may stand before the type of a variable: `final` and annotations. -/
def variableModifiers (g : Grammar) : Parser (List Tree) := do
  let found ← untilNone do
    if ← accept ["final"] then return some []
    else if ← seeAnnotationUse 0 then return some [← g .annotationUse]
    else return none
  return found.flatten

end TypeAtlas.Java.Parser
