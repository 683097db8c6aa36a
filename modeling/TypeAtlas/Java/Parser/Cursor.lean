import TypeAtlas.Java.Token
import TypeAtlas.Java.Tree

namespace TypeAtlas.Java

/-- Why a parse stops. -/
inductive ParseFault
  /-- The grammar wants something else here; at the end of the tokens there is no place to name. -/
  | unexpected (message : String) (at? : Option Position)
  /-- A token was due after the last one. -/
  | endOfTokens
  /-- The tokens end where a selector or a postfix operator may stand. -/
  | openOperand
  /-- The bound on the nesting depth was too low. -/
  | tooDeep
  deriving DecidableEq, Repr, Inhabited

/-- Where a parse stands: the tokens still to read, and the places to fall back to, the innermost
first. -/
structure Cursor where
  rest : List Token
  marks : List (List Token) := []

abbrev Parser := EStateM ParseFault Cursor

namespace Parser

/-- The token `k` places ahead, if there is one. -/
def look (k : Nat) : Parser (Option Token) := do
  return (← get).rest[k]?

def next : Parser Token := do
  let c ← get
  match c.rest with
  | [] => throw .endOfTokens
  | t :: rest =>
    set { c with rest }
    return t

/-- Refuses the next token without reading it. -/
def refuse {α : Type} (message : String) : Parser α := do
  throw (.unexpected message ((← look 0).map (·.position)))

/-- What a token is compared with: a text, or the kind of an identifier. -/
inductive Want
  | text (s : String)
  | identifier

def Want.matches (w : Want) (t : Option Token) : Bool :=
  match w with
  | .text s => t.any (·.text == s)
  | .identifier => t.any (·.kind == .identifier)

def Want.message : Want → String
  | .text s => "Expected '" ++ s ++ "'"
  | .identifier => "Expected Identifier"

instance : Coe String Want := ⟨.text⟩

/-- Reads a token and then checks it, so that a refusal is placed at the token after the wrong
one. -/
def expect (w : Want) : Parser Token := do
  let t ← next
  if w.matches (some t) then return t else refuse w.message

def identifier : Parser String := do
  return (← expect .identifier).text

/-- Says whether the next tokens are those wanted. -/
def see (ws : List Want) : Parser Bool := do
  let rest := (← get).rest
  return ws.zipIdx.all fun (w, k) => w.matches rest[k]?

/-- Reads the next tokens if all are as wanted. -/
def accept (ws : List Want) : Parser Bool := do
  if ← see ws then
    modify fun c => { c with rest := c.rest.drop ws.length }
    return true
  else return false

def seeKind (k : TokenKind) : Parser Bool := do
  return (← look 0).any (·.kind == k)

def atEnd : Parser Bool := do
  return (← get).rest.isEmpty

def seeAnyOf (texts : List String) : Parser Bool := do
  return (← look 0).any fun t => texts.contains t.text

/-- An annotation use starts with `@`, but `@interface` declares a type. -/
def seeAnnotationUse (k : Nat) : Parser Bool := do
  return (← look k).any (·.kind == .atSign) && !(← look (k + 1)).any (·.text == "interface")

def pushMark : Parser Unit :=
  modify fun c => { c with marks := c.rest :: c.marks }

/-- Drops the innermost mark and goes back to it. -/
def rewind : Parser Unit :=
  modify fun c => match c.marks with
    | [] => c
    | m :: marks => { rest := m, marks }

/-- Drops the innermost mark, which takes the place of the mark below it. -/
def keep : Parser Unit :=
  modify fun c => match c.marks with
    | m :: _ :: marks => { c with marks := m :: marks }
    | _ => { c with marks := [] }

/-- Runs `p` from a mark. A fault goes back to the mark, and unless it is a refusal it is raised
again. -/
def attempt {α : Type} (p : Parser α) : Parser (Option α) := fun c =>
  match (pushMark *> p) c with
  | .ok a c => (do keep; return some a : Parser (Option α)) c
  | .error (.unexpected ..) c => (do rewind; return none : Parser (Option α)) c
  | .error e c => (do rewind; throw e : Parser (Option α)) c

/-- Repeats `p`, which says each time whether there is more, and joins what it gives. The tokens
left at the start bound the rounds, for every round but the last reads one. -/
def whileMore {α : Type} (p : Parser (List α × Bool)) : Parser (List α) := do
  let rec go : List Token → Parser (List α)
    | [] => do
      match ← p with
      | (found, false) => return found
      | (_, true) => throw .tooDeep
    | _ :: fuel => do
      match ← p with
      | (found, false) => return found
      | (found, true) => return found ++ (← go fuel)
  go (← get).rest

/-- Repeats `p` until it gives nothing. -/
def untilNone {α : Type} (p : Parser (Option α)) : Parser (List α) :=
  whileMore do
    match ← p with
    | none => return ([], false)
    | some a => return ([a], true)

/-- Repeats `p` as long as `more` says so. -/
def whileM {α : Type} (more : Parser Bool) (p : Parser α) : Parser (List α) :=
  untilNone do if ← more then return some (← p) else return none

/-- Repeats `p` until `done` says so. -/
def untilM {α : Type} (done : Parser Bool) (p : Parser α) : Parser (List α) :=
  whileM (not <$> done) p

/-- One `p`, and another as long as `more` says so. -/
def manyWith {α : Type} (more : Parser Bool) (p : Parser α) : Parser (List α) := do
  let first ← p
  return first :: (← whileM more p)

/-- One `p` or more, with commas between them. -/
def commaList {α : Type} (p : Parser α) : Parser (List α) :=
  manyWith (accept [","]) p

end Parser

end TypeAtlas.Java
