import TypeAtlas.Java.Parser.Statements

namespace TypeAtlas.Java.Parser

def seeDeclaration : Parser Bool :=
  seeAnyOf ["class", "enum", "interface", "@"]

def classDeclaration (g : Grammar) (notes : List Tree) : Parser Tree := do
  discard <| expect "class"
  let name ← identifier
  if ← see ["<"] then typeParameters g
  let base ← if ← accept ["extends"] then type g else pure .absent
  let interfaces ← if ← accept ["implements"] then typeList g else pure []
  return .node .classDeclaration
    [(.annotations, .list notes), (.name, .word name), (.extended, base),
      (.implemented, .list interfaces), (.body, ← g .classBody)]

def enumDeclaration (g : Grammar) (notes : List Tree) : Parser Tree := do
  discard <| expect "enum"
  let name ← identifier
  let interfaces ← if ← accept ["implements"] then typeList g else pure []
  return .node .enumDeclaration
    [(.annotations, .list notes), (.name, .word name), (.implemented, .list interfaces),
      (.body, ← g .enumBody)]

def interfaceDeclaration (g : Grammar) (notes : List Tree) : Parser Tree := do
  discard <| expect "interface"
  let name ← identifier
  if ← see ["<"] then typeParameters g
  let bases ← if ← accept ["extends"] then typeList g else pure []
  return .node .interfaceDeclaration
    [(.annotations, .list notes), (.name, .word name), (.extended, .list bases),
      (.body, ← g .interfaceBody)]

def annotationDeclaration (g : Grammar) (notes : List Tree) : Parser Tree := do
  discard <| expect "@"
  discard <| expect "interface"
  let name ← identifier
  return .node .annotationDeclaration
    [(.annotations, .list notes), (.name, .word name), (.body, ← g .annotationBody)]

/-- A type declaration after its modifiers, told by its first token. -/
def declaredType (g : Grammar) (notes : List Tree) : Parser Tree := do
  if ← see ["class"] then classDeclaration g notes
  else if ← see ["enum"] then enumDeclaration g notes
  else if ← see ["interface"] then interfaceDeclaration g notes
  else annotationDeclaration g notes

def typeDeclaration (g : Grammar) : Parser Tree := do
  let notes ← modifiers g
  if ← seeDeclaration then declaredType g notes
  else refuse "Expected type declaration"

/-- The parameters of a method and all after them. What it returns is known once `returned` has read
the brackets behind the parameters. -/
def methodRest (g : Grammar) (notes : List Tree) (name : String) (returned : Parser Tree) :
    Parser Tree := do
  let parameters ← formalParameters g
  let t ← returned
  if ← accept ["throws"] then discard <| commaList qualifiedName
  let body ←
    if ← see [openBrace] then g .block
    else
      discard <| expect ";"
      pure .absent
  return .node .method
    [(.annotations, .list notes), (.name, .word name), (.returnType, t),
      (.parameters, .list parameters), (.body, body)]

def voidMethod (g : Grammar) (notes : List Tree) : Parser Tree := do
  let name ← identifier
  methodRest g notes name (pure .absent)

/-- A method whose brackets behind the parameters belong to the type it returns. -/
def typedMethod (g : Grammar) (notes : List Tree) (t : Tree) (name : String) : Parser Tree :=
  methodRest g notes name (return t.addBrackets (← brackets))

def constructor (g : Grammar) (notes : List Tree) : Parser Tree := do
  let name ← identifier
  let parameters ← formalParameters g
  if ← accept ["throws"] then discard <| commaList qualifiedName
  return .node .constructor
    [(.annotations, .list notes), (.name, .word name), (.parameters, .list parameters),
      (.body, ← g .block)]

/-- Fields after the first name. -/
def fieldRest (g : Grammar) (notes : List Tree) (t : Tree) (name : String) : Parser Tree := do
  let dims ← brackets
  let value ← optionalValue g
  let declarators := declarator name dims value :: (← moreDeclarators g)
  discard <| expect ";"
  return .node .field
    [(.annotations, .list notes), (.type, t), (.declarators, .list declarators)]

/-- A constant after its name. It must have a value. -/
def constantRest (g : Grammar) (name : String) : Parser Tree := do
  let dims ← brackets
  discard <| expect "="
  return declarator name dims (← variableValue g)

/-- Constants after the first name. -/
def constantsRest (g : Grammar) (notes : List Tree) (t : Tree) (name : String) : Parser Tree := do
  let first ← constantRest g name
  let more ← whileM (accept [","]) (do constantRest g (← identifier))
  return .node .constant
    [(.annotations, .list notes), (.type, t), (.declarators, .list (first :: more))]

def seeConstructor : Parser Bool :=
  see [.identifier, "("]

/-- A member of a class after its modifiers. -/
def member (g : Grammar) (notes : List Tree) : Parser Tree := do
  if ← accept ["void"] then voidMethod g notes
  else if ← see ["<"] then
    typeParameters g
    if ← seeConstructor then constructor g notes
    else if ← accept ["void"] then voidMethod g notes
    else
      let t ← type g
      typedMethod g notes t (← identifier)
  else if ← seeDeclaration then declaredType g notes
  else if ← seeConstructor then constructor g notes
  else
    let t ← type g
    let name ← identifier
    if ← see ["("] then typedMethod g notes t name else fieldRest g notes t name

/-- What stands in the body of a class: a member, a block, or an empty declaration. -/
def classMember (g : Grammar) : Parser Tree := do
  if ← accept [";"] then return .row []
  else if ← see ["static", openBrace] then
    discard next
    g .block
  else if ← see [openBrace] then g .block
  else member g (← modifiers g)

/-- A member of an interface. The brackets behind the parameters of a generic method are read but do
not count. -/
def interfaceMember (g : Grammar) : Parser Tree := do
  if ← accept [";"] then return .row []
  let notes ← modifiers g
  if ← seeDeclaration then declaredType g notes
  else if ← see ["<"] then
    typeParameters g
    let t ← if ← accept ["void"] then pure .absent else type g
    let name ← identifier
    methodRest g notes name (do discard brackets; return t)
  else if ← accept ["void"] then voidMethod g notes
  else
    let t ← type g
    let name ← identifier
    if ← see ["("] then typedMethod g notes t name
    else
      let c ← constantsRest g notes t name
      discard <| expect ";"
      return c

/-- A member of an annotation type: a type, a value with its default, or constants. -/
def annotationMember (g : Grammar) : Parser Tree := do
  let notes ← modifiers g
  if ← seeDeclaration then declaredType g notes
  else
    let t ← type g
    let name ← identifier
    let m ←
      if ← accept ["("] then
        discard <| expect ")"
        let dims ← brackets
        let value ← if ← accept ["default"] then elementValue g else pure .absent
        pure (.node .annotationMethod
          [(.annotations, .list notes), (.name, .word name), (.returnType, t.addBrackets dims),
            (.defaultValue, value)])
      else constantsRest g notes t name
    discard <| expect ";"
    return m

/-- Members between braces. -/
def braced (p : Parser Tree) : Parser Tree := do
  discard <| expect openBrace
  let members ← untilM (see [closeBrace]) p
  discard <| expect closeBrace
  return .list members

def enumConstant (g : Grammar) : Parser Tree := do
  let notes ← if ← seeKind .atSign then annotations g else pure []
  let name ← identifier
  let row ← ifSee ["("] (arguments g)
  let body ← if ← see [openBrace] then g .classBody else pure .absent
  return .node .enumConstant
    [(.annotations, .list notes), (.name, .word name), (.arguments, row), (.body, body)]

/-- The constants of an enumeration. One comma may stand for none at all, and one may end them. -/
def enumConstants (g : Grammar) : Parser (List Tree) := do
  if ← accept [","] then return []
  whileMore do
    if ← seeAnyOf [";", closeBrace] then return ([], false)
    let c ← enumConstant g
    return ([c], ← accept [","])

def enumBody (g : Grammar) : Parser Tree := do
  discard <| expect openBrace
  let constants ← enumConstants g
  let members ← if ← accept [";"] then untilM (see [closeBrace]) (classMember g) else pure []
  discard <| expect closeBrace
  return .node .enumBody [(.constants, .list constants), (.declarations, .list members)]

end TypeAtlas.Java.Parser
