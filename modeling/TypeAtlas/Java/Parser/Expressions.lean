import TypeAtlas.Java.Parser.Variables

namespace TypeAtlas.Java.Parser

def assignmentOperators : List String :=
  ["=", "+=", "-=", "*=", "/=", "&=", "|=", "^=", "%=", "<<=", ">>=", ">>>="]

def binaryOperators : List String :=
  ["||", "&&", "|", "^", "&", "==", "!=", "<", ">", "<=", ">=", "<<", "+", "-", "*", "/", "%"]

def signOperators : List String :=
  ["++", "--", "!", "~", "+", "-"]

def stepOperators : List String :=
  ["++", "--"]

/-- Runs `p` if the next tokens are those wanted, and otherwise gives an empty row. -/
def ifSee (ws : List Want) (p : Parser Tree) : Parser Tree := do
  if ← see ws then p else return .row []

def arguments (g : Grammar) : Parser Tree := do
  discard <| expect "("
  if ← accept [")"] then return .list []
  let row ← commaList (g .expression)
  discard <| expect ")"
  return .list row

def parenthesized (g : Grammar) : Parser Tree := do
  discard <| expect "("
  let e ← g .expression
  discard <| expect ")"
  return e

def lambdaBody (g : Grammar) : Parser Tree := do
  discard <| expect "->"
  if ← see [openBrace] then g .block else g .expression

/-- A function whose parameters are in parentheses. -/
def lambda (g : Grammar) : Parser Tree := do
  let parameters ←
    if ← see ["(", .identifier, ","] then
      discard <| expect "("
      discard <| untilM (see [")"]) (do discard identifier; accept [","])
      discard <| expect ")"
      pure []
    else formalParameters g
  return .node .lambda [(.parameters, .list parameters), (.body, ← lambdaBody g)]

def cast (g : Grammar) : Parser Tree := do
  discard <| expect "("
  discard <| type g
  discard <| expect ")"
  return .row [← g .operand]

/-- What follows `super`: a member, or the arguments of a constructor. -/
def superRest (g : Grammar) : Parser Tree := do
  if ← accept ["."] then
    if ← see ["<"] then plainTypeArguments g
    discard identifier
    ifSee ["("] (arguments g)
  else arguments g

/-- What follows explicit type arguments of a call. -/
def genericCall (g : Grammar) : Parser Tree := do
  if ← accept ["super"] then superRest g
  else
    discard identifier
    arguments g

/-- The arguments of a constructor call and the body of an anonymous class. -/
def creatorRest (g : Grammar) : Parser Tree := do
  let row ← arguments g
  let body ← if ← see [openBrace] then g .classBody else pure .absent
  return .node .classCreator [(.arguments, row), (.body, body)]

def innerCreator (g : Grammar) : Parser Tree := do
  if ← see ["<"] then plainTypeArguments g
  discard identifier
  if ← see ["<"] then plainTypeArgumentsOrDiamond g
  creatorRest g

/-- The sizes or the values of a new array. -/
def arrayRest (g : Grammar) : Parser Tree := do
  if ← see ["[", "]"] then
    discard brackets
    arrayValue g
  else
    let sized : Parser Bool := do return (← see ["["]) && !(← see ["[", "]"])
    let sizes ← whileM sized do
      discard <| expect "["
      let size ← g .expression
      discard <| expect "]"
      return size
    discard brackets
    return .list sizes

def createdName (g : Grammar) : Parser Unit :=
  discard <| manyWith (accept ["."]) do
    discard identifier
    if ← see ["<"] then typeArgumentsOrDiamond g

def creator (g : Grammar) : Parser Tree := do
  if ← seeKind .basicType then
    discard next
    arrayRest g
  else
    let isGeneric ← see ["<"]
    if isGeneric then plainTypeArguments g
    createdName g
    if ← see ["["] then
      if isGeneric then
        refuse "Array creator not allowed with generic constructor type arguments"
      arrayRest g
    else creatorRest g

/-- What may follow a qualified name. -/
def nameRest (g : Grammar) : Parser Tree := do
  if ← accept ["[", "]"] then
    discard brackets
    discard <| expect "."
    discard <| expect "class"
    return .row []
  else if ← see ["("] then arguments g
  else if ← accept [".", "class"] then return .row []
  else if ← accept [".", "this"] then return .row []
  else if ← see [".", "<"] then
    discard next
    plainTypeArguments g
    genericCall g
  else if ← accept [".", "new"] then innerCreator g
  else if ← see [".", "super", "("] then
    discard <| expect "."
    discard <| expect "super"
    arguments g
  else return .row []

def classLiteralEnd : Parser Tree := do
  discard <| expect "."
  discard <| expect "class"
  return .row []

/-- A primary that is not in parentheses, without its selectors. -/
def bare (g : Grammar) : Parser Tree := do
  if ← seeKind .literal then
    discard next
    return .row []
  else if ← accept ["this"] then ifSee ["("] (arguments g)
  else if ← see ["super", "::"] then
    discard next
    return .row []
  else if ← accept ["super"] then superRest g
  else if ← accept ["new"] then creator g
  else if ← see ["<"] then
    plainTypeArguments g
    if ← accept ["this"] then arguments g else genericCall g
  else if ← seeKind .identifier then
    discard identifier
    discard <| whileM (see [".", .identifier]) (do discard next; identifier)
    nameRest g
  else if ← seeKind .basicType then
    discard next
    discard brackets
    classLiteralEnd
  else if ← accept ["void"] then classLiteralEnd
  else refuse "Expected expression"

/-- The start of an operand: a primary, or an expression in parentheses, which is taken as it is. -/
def primary (g : Grammar) : Parser Tree := do
  if ← see ["("] then parenthesized g else return .primary (← bare g)

def selector (g : Grammar) : Parser Tree := do
  if ← accept ["["] then
    let index ← g .expression
    discard <| expect "]"
    return index
  else if ← accept ["."] then
    if ← seeKind .identifier then
      discard next
      ifSee ["("] (arguments g)
    else if ← see ["super", "::"] then
      discard next
      return .row []
    else if ← see ["<"] then
      plainTypeArguments g
      genericCall g
    else if ← accept ["this"] then return .row []
    else if ← accept ["super"] then superRest g
    else if ← accept ["new"] then innerCreator g
    else refuse "Expected selector"
  else refuse "Expected selector"

/-- Says whether a selector follows; there must be a token to tell. -/
def seeSelector : Parser Bool := do
  if ← atEnd then throw .openOperand
  seeAnyOf ["[", "."]

/-- A primary with signs before it and selectors after it. -/
def selected (g : Grammar) : Parser Tree := do
  let first ← primary g
  let selectors ← whileM seeSelector (selector g)
  discard <| whileM (seeAnyOf stepOperators) next
  return first.select selectors

/-- An operand of a binary operator. Before a parenthesis is taken for an expression it is tried as
the parameters of a function and as a cast. -/
def operand (g : Grammar) : Parser Tree := do
  discard <| whileM (seeAnyOf signOperators) next
  if ← see ["("] then
    if let some t ← attempt (lambda g) then return t
    if let some t ← attempt (cast g) then return t
  selected g

/-- A binary operator; signs of greater that follow each other are a shift. -/
def binaryOperator : Parser Unit := do
  let t ← next
  if t.text = ">" then
    if ← accept [">"] then discard <| accept [">"]

/-- Operands with binary operators between them. A single operand stays what it is. -/
def binary (g : Grammar) : Parser Tree := do
  let first ← operand g
  let rest ← whileM (seeAnyOf ("instanceof" :: binaryOperators)) do
    if ← accept ["instanceof"] then
      discard <| type g
      return .row []
    else
      binaryOperator
      operand g
  if rest.isEmpty then return first else return .row (first :: rest)

/-- What follows the double colon of a method reference. -/
def methodReference (g : Grammar) : Parser Tree := do
  if ← see ["<"] then plainTypeArguments g
  if ← accept ["new"] then return .row [] else g .expression

/-- An expression that is not an assignment. -/
def conditional (g : Grammar) : Parser Tree := do
  let e ← binary g
  if ← accept ["?"] then
    let yes ← g .expression
    discard <| expect ":"
    return .row [e, yes, ← g .conditional]
  else if ← see ["->"] then
    return .node .lambda [(.parameters, .list [e]), (.body, ← lambdaBody g)]
  else if ← accept ["::"] then return .row [e, ← methodReference g]
  else return e

def expression (g : Grammar) : Parser Tree := do
  let e ← conditional g
  if ← seeAnyOf assignmentOperators then
    discard next
    return .row [e, ← g .expression]
  else return e

end TypeAtlas.Java.Parser
