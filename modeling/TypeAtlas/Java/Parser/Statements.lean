import TypeAtlas.Java.Parser.Expressions

namespace TypeAtlas.Java.Parser

/-- What the first tokens of a statement of a block show it to be. -/
inductive StatementForm
  | declaration
  | localVariables
  | statement
  | variablesOrStatement
  deriving DecidableEq, Repr

/-- The tokens after the parenthesis that closes `depth + 1` open ones. -/
def afterParentheses (depth : Nat) : List Token → List Token
  | [] => []
  | t :: rest =>
    if t.text = "(" then afterParentheses (depth + 1) rest
    else if t.text = ")" then
      match depth with
      | 0 => rest
      | depth + 1 => afterParentheses depth rest
    else afterParentheses depth rest

theorem length_afterParentheses (depth : Nat) (tokens : List Token) :
    (afterParentheses depth tokens).length ≤ tokens.length := by
  induction tokens generalizing depth with
  | nil => simp [afterParentheses]
  | cons t rest ih =>
    simp only [afterParentheses, List.length_cons]
    split
    · exact Nat.le_succ_of_le (ih _)
    · split
      · cases depth with
        | zero => simp
        | succ depth => exact Nat.le_succ_of_le (ih _)
      · exact Nat.le_succ_of_le (ih _)

/-- The tokens after a qualified name, of which the first component is already passed. -/
def afterDots : List Token → List Token
  | dot :: name :: rest => if dot.text = "." then afterDots rest else dot :: name :: rest
  | [dot] => if dot.text = "." then [] else [dot]
  | [] => []

theorem length_afterDots (tokens : List Token) : (afterDots tokens).length ≤ tokens.length := by
  fun_induction afterDots tokens <;> simp only [List.length_cons, List.length_nil] at * <;> omega

/-- The tokens after an annotation, of which the sign and the first name are passed. One token too
many is passed over when there are no parentheses. -/
def afterAnnotationUse (tokens : List Token) : List Token :=
  match afterDots tokens with
  | [] => []
  | t :: rest => if t.text = "(" then afterParentheses 0 rest else rest

theorem length_afterAnnotationUse (tokens : List Token) :
    (afterAnnotationUse tokens).length ≤ tokens.length := by
  have h := length_afterDots tokens
  unfold afterAnnotationUse
  split
  · simp
  · rename_i t rest heq
    have hrest := length_afterParentheses 0 rest
    rw [heq, List.length_cons] at h
    split <;> omega

/-- Looks past `final` and annotations. Any other modifier belongs to a type declaration. -/
def statementForm (annotated : Bool) : List Token → StatementForm
  | [] => if annotated then .localVariables else .statement
  | t :: rest =>
    if t.kind = .modifier then
      if t.text = "final" then statementForm annotated rest else .declaration
    else if t.kind = .atSign && !rest.head?.any (·.text == "interface") then
      statementForm true (afterAnnotationUse (rest.drop 1))
    else if ["class", "enum", "interface", "@"].contains t.text then .declaration
    else if annotated || t.kind = .basicType then .localVariables
    else if t.kind = .identifier then .variablesOrStatement
    else .statement
termination_by tokens => tokens.length
decreasing_by
  · simp
  · have h := length_afterAnnotationUse (rest.drop 1)
    simp only [List.length_drop, List.length_cons] at h ⊢
    omega

def blockStatement (g : Grammar) : Parser Tree := do
  if (← see [.identifier, ":"]) || (← see ["synchronized"]) then g .statement
  else match statementForm false (← get).rest with
    | .declaration => g .typeDeclaration
    | .localVariables => localVariables g
    | .statement => g .statement
    | .variablesOrStatement =>
      match ← attempt (localVariables g) with
      | some t => return t
      | none => g .statement

def block (g : Grammar) : Parser Tree := do
  discard <| expect openBrace
  let statements ← untilM (see [closeBrace]) (blockStatement g)
  discard <| expect closeBrace
  return .list statements

/-- Handlers, of which there is at least one. The annotations of what they catch are left out. -/
def handlers (g : Grammar) : Parser (List Tree) :=
  manyWith (see ["catch"]) do
    discard <| expect "catch"
    discard <| expect "("
    discard <| variableModifiers g
    discard <| manyWith (accept ["|"]) qualifiedName
    discard identifier
    discard <| expect ")"
    g .block

/-- A variable that is closed at the end of a block. -/
def resource (g : Grammar) : Parser Tree := do
  let notes ← variableModifiers g
  let t ← g .referenceType
  let dims ← brackets
  let name ← identifier
  let more ← brackets
  discard <| expect "="
  let value ← g .expression
  return .node .resource
    [(.annotations, .list notes), (.type, t.addBrackets (dims + more)), (.name, .word name),
      (.value, value)]

/-- Resources between parentheses. A semicolon may stand before the closing one. -/
def resources (g : Grammar) : Parser (List Tree) := do
  discard <| expect "("
  let item : Parser Tree := do
    let r ← resource g
    unless ← see [")"] do discard <| expect ";"
    return r
  let first ← item
  return first :: (← untilM (accept [")"]) item)

def tryRest (g : Grammar) : Parser Tree := do
  let isPlain ← see [openBrace]
  let opened ← if isPlain then pure [] else resources g
  let body ← g .block
  let hasHandlers ← see ["catch"]
  let caught ← if hasHandlers then handlers g else pure []
  let hasEnd ← accept ["finally"]
  let atEnd ← if hasEnd then g .block else pure (.row [])
  if isPlain && !hasHandlers && !hasEnd then refuse "Expected catch/finally block"
  return .node .tryStatement
    [(.resources, .list opened), (.block, .list [body, .list caught, atEnd])]

def seeCase : Parser Bool :=
  seeAnyOf ["case", "default"]

def caseLabel (g : Grammar) : Parser Tree := do
  let t ← next
  let label ←
    if t.text = "case" then
      if ← see [.identifier, ":"] then
        discard identifier
        pure (.row [])
      else g .expression
    else pure (.row [])
  discard <| expect ":"
  return label

/-- Labels and the statements after them. -/
def caseGroup (g : Grammar) : Parser Tree := do
  let labels ← manyWith seeCase (caseLabel g)
  let statements ← untilM (seeAnyOf ["case", "default", closeBrace]) (blockStatement g)
  return .list (labels ++ statements)

/-- Runs `p` unless the next token is the text `s`. -/
def unlessSee (s : String) (p : Parser Tree) : Parser Tree := do
  if ← see [s] then return .row [] else p

def expressionList (g : Grammar) : Parser Tree :=
  return .list (← commaList (g .expression))

/-- The condition and the steps of a loop, each of which may be missing. -/
def loopRest (g : Grammar) : Parser Tree := do
  discard <| expect ";"
  let condition ← unlessSee ";" (g .expression)
  discard <| expect ";"
  return .row [condition, ← unlessSee ")" (expressionList g)]

/-- The head of a loop that declares variables. The brackets after the first name belong to the type
of all of them. -/
def loopVariables (g : Grammar) : Parser Tree := do
  let notes ← variableModifiers g
  let t ← type g
  let name ← identifier
  let t := t.addBrackets (← brackets)
  let declaration (declarators : List Tree) : Tree :=
    .node .loopVariables
      [(.annotations, .list notes), (.type, t), (.declarators, .list declarators)]
  if ← accept [":"] then
    let row ← g .expression
    return .row [declaration [declarator name 0 .absent], row]
  else
    let declarators ←
      if ← see [";"] then pure [declarator name 0 .absent]
      else
        let value ← optionalValue g
        pure (declarator name 0 value :: (← moreDeclarators g))
    return .row [declaration declarators, ← loopRest g]

def loopHead (g : Grammar) : Parser Tree := do
  match ← attempt (loopVariables g) with
  | some t => return t
  | none =>
    let start ← unlessSee ";" (expressionList g)
    return .row [start, ← loopRest g]

/-- The label of a jump, if it has one. -/
def jumpRest : Parser Tree := do
  if ← see [.identifier] then discard identifier
  discard <| expect ";"
  return .row []

def statement (g : Grammar) : Parser Tree := do
  if ← see [openBrace] then g .block
  else if ← accept [";"] then return .row []
  else if ← see [.identifier, ":"] then
    discard identifier
    discard <| expect ":"
    g .statement
  else if ← accept ["if"] then
    let condition ← parenthesized g
    let yes ← g .statement
    if ← accept ["else"] then return .row [condition, yes, ← g .statement]
    else return .row [condition, yes]
  else if ← accept ["assert"] then
    let condition ← g .expression
    let message ← if ← accept [":"] then g .expression else pure (.row [])
    discard <| expect ";"
    return .row [condition, message]
  else if ← accept ["switch"] then
    let subject ← parenthesized g
    discard <| expect openBrace
    let groups ← whileM seeCase (caseGroup g)
    discard <| expect closeBrace
    return .row (subject :: groups)
  else if ← accept ["while"] then
    let condition ← parenthesized g
    return .row [condition, ← g .statement]
  else if ← accept ["do"] then
    let body ← g .statement
    discard <| expect "while"
    let condition ← parenthesized g
    discard <| expect ";"
    return .row [body, condition]
  else if ← accept ["for"] then
    discard <| expect "("
    let head ← loopHead g
    discard <| expect ")"
    return .row [head, ← g .statement]
  else if ← accept ["break"] then jumpRest
  else if ← accept ["continue"] then jumpRest
  else if ← accept ["return"] then
    let value ← unlessSee ";" (g .expression)
    discard <| expect ";"
    return value
  else if ← accept ["throw"] then
    let value ← g .expression
    discard <| expect ";"
    return value
  else if ← accept ["synchronized"] then
    let lock ← parenthesized g
    return .row [lock, ← g .block]
  else if ← accept ["try"] then tryRest g
  else
    let e ← g .expression
    discard <| expect ";"
    return e

end TypeAtlas.Java.Parser
