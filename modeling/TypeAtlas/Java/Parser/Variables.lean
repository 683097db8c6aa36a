import TypeAtlas.Java.Parser.Annotations

namespace TypeAtlas.Java.Parser

/-- The values between braces; one comma may stand for none at all, and one may end them. -/
def arrayValue (g : Grammar) : Parser Tree := do
  discard <| expect openBrace
  if ← accept [","] then
    discard <| expect closeBrace
    return .list []
  if ← accept [closeBrace] then return .list []
  let item : Parser Tree := do
    let v ← g .variableValue
    unless ← see [closeBrace] do discard <| expect ","
    return v
  let first ← item
  return .list (first :: (← untilM (accept [closeBrace]) item))

/-- What a variable starts with: values in braces or an expression. -/
def variableValue (g : Grammar) : Parser Tree := do
  if ← see [openBrace] then arrayValue g else g .expression

/-- One declared variable. -/
def declarator (name : String) (brackets : Nat) (value : Tree) : Tree :=
  .node .declarator
    [(.name, .word name), (.dimensions, .brackets brackets), (.initializer, value)]

/-- The value after an equals sign, if there is one. -/
def optionalValue (g : Grammar) : Parser Tree := do
  if ← accept ["="] then variableValue g else return .absent

def variableDeclarator (g : Grammar) : Parser Tree := do
  let name ← identifier
  let dims ← brackets
  return declarator name dims (← optionalValue g)

/-- The declarators after the first. -/
def moreDeclarators (g : Grammar) : Parser (List Tree) :=
  whileM (accept [","]) (variableDeclarator g)

/-- A local variable statement. -/
def localVariables (g : Grammar) : Parser Tree := do
  let notes ← variableModifiers g
  let t ← type g
  let declarators ← commaList (variableDeclarator g)
  discard <| expect ";"
  return .node .localVariables
    [(.annotations, .list notes), (.type, t), (.declarators, .list declarators)]

/-- A parameter of a method; the answer says also whether more of them may follow. -/
def formalParameter (g : Grammar) : Parser (Tree × Bool) := do
  let notes ← variableModifiers g
  let t ← type g
  let isVariadic ← accept ["..."]
  let name ← identifier
  let dims ← brackets
  let more ← if isVariadic then pure false else accept [","]
  return (.node .formalParameter
    [(.annotations, .list notes), (.type, t.addBrackets dims), (.name, .word name),
      (.isVariadic, .flag isVariadic)], more)

def formalParameters (g : Grammar) : Parser (List Tree) := do
  discard <| expect "("
  if ← accept [")"] then return []
  let parameters ← whileMore do
    let (p, more) ← formalParameter g
    return ([p], more)
  discard <| expect ")"
  return parameters

end TypeAtlas.Java.Parser
