import TypeAtlas.Toml.Document
import TypeAtlas.Toml.Numbers
import TypeAtlas.Toml.Strings

namespace TypeAtlas.Toml

/-- Passes over blanks, line feeds and comments. -/
def skipToItem : Nat → Reader Unit
  | 0 => return ()
  | fuel + 1 => do
    let before := (← get).length
    Reader.skipWhile isSpaceOrNewline
    skipComment
    if (← get).length ≠ before then skipToItem fuel

def skipGap : Reader Unit := do
  skipToItem ((← get).length + 1)

/-- Goes on with a result, or stops here. -/
def orStop {α : Type} (result : Except Problem α) : Reader α :=
  match result with
  | .ok a => return a
  | .error problem => Reader.stop problem

/-- A value that is neither a string nor a container. -/
def plainValue : Reader Data := do
  let r ← get
  if let some ((date, timed), rest) := dateOrMoment? r then
    if date.IsValid then
      set rest
      return match timed with
        | none => .date date
        | some (time, offset) => .moment ⟨date, time, offset⟩
    else Reader.stop .badDate
  else if let some (time, rest) := timeOfDay? r then
    set rest
    return .time time
  else if let some (number, rest) := number? r then
    let value ← orStop number
    set rest
    return value
  else match special? r with
    | some (value, rest) =>
      set rest
      return value
    | none => Reader.stop .badValue

mutual

/-- A value of any kind. The fuel bounds the nesting and the number of items. -/
def value : Nat → Reader Data
  | 0 => Reader.stop .badValue
  | fuel + 1 => do
    match ← Reader.peek with
    | some '"' =>
      if ← Reader.startsWith "\"\"\"" then return .text (← linesString '"')
      else return .text (← basicString)
    | some '\'' =>
      if ← Reader.startsWith "'''" then return .text (← linesString '\'')
      else return .text (← literalString)
    | some '[' =>
      Reader.skip 1
      skipGap
      if ← Reader.accept "]" then return .list [] else return .list (← arrayItems fuel)
    | some '\x7b' =>
      Reader.skip 1
      Reader.skipWhile isSpace
      if ← Reader.accept "\x7d" then return .table [] else return .table (← inlineEntries {} fuel)
    | _ =>
      if ← Reader.accept "true" then return .bool true
      else if ← Reader.accept "false" then return .bool false
      else plainValue

/-- The items of an array up to its closing bracket. A comma may stand before it. -/
def arrayItems : Nat → Reader (List Data)
  | 0 => Reader.stop .openArray
  | fuel + 1 => do
    let item ← value fuel
    skipGap
    if ← Reader.accept "]" then return [item]
    else if ← Reader.accept "," then
      skipGap
      if ← Reader.accept "]" then return [item] else return item :: (← arrayItems fuel)
    else Reader.stop .openArray

/-- The entries of an inline table up to its closing brace. -/
def inlineEntries (t : InlineTable) : Nat → Reader Entries
  | 0 => Reader.stop .openInlineTable
  | fuel + 1 => do
    let (key, v) ← keyValue fuel
    let t ← orStop (t.assign key v)
    Reader.skipWhile isSpace
    if ← Reader.accept "\x7d" then return t.entries
    else if ← Reader.accept "," then
      Reader.skipWhile isSpace
      inlineEntries t fuel
    else Reader.stop .openInlineTable

/-- A key, an equals sign and a value. -/
def keyValue : Nat → Reader (Key × Data)
  | 0 => Reader.stop .noEqualsSign
  | fuel + 1 => do
    let key ← key
    unless ← Reader.accept "=" do Reader.stop .noEqualsSign
    Reader.skipWhile isSpace
    return (key, ← value fuel)

end

/-- The header of a table or of an item of an array of tables. -/
def header (d : Document) : Reader (Document × Key) := do
  let d := d.settlePending
  let isArray ← Reader.startsWith "[["
  Reader.skip (if isArray then 2 else 1)
  Reader.skipWhile isSpace
  let key ← key
  if isArray then
    let d ← orStop (d.declareArrayItem key)
    unless ← Reader.accept "]]" do Reader.stop .openArrayHeader
    return (d, key)
  else
    let d ← orStop (d.declareTable key)
    unless ← Reader.accept "]" do Reader.stop .openTableHeader
    return (d, key)

/-- A statement on a line of its own, which may be empty, for a document below a header. -/
def statement (d : Document) (under : Key) : Reader (Document × Key) := do
  match ← Reader.peek with
  | some '[' => header d
  | some '#' => return (d, under)
  | some c =>
    if isBareKey c || c = '"' || c = '\'' then
      let (key, v) ← keyValue (3 * (← get).length + 3)
      return (← orStop (d.assign under key v), under)
    else Reader.stop .invalidStatement
  | none => return (d, under)

/-- The statements of a document. Each ends with its line. -/
def statements (d : Document) (under : Key) : Nat → Reader Document
  | 0 => return d
  | fuel + 1 => do
    Reader.skipWhile isSpace
    match ← Reader.peek with
    | none => return d
    | some '\n' =>
      Reader.skip 1
      statements d under fuel
    | some _ =>
      let (d, under) ← statement d under
      Reader.skipWhile isSpace
      skipComment
      match ← Reader.peek with
      | none => return d
      | some '\n' =>
        Reader.skip 1
        statements d under fuel
      | some _ => Reader.stop .statementGoesOn

/-- A carriage return before a line feed does not count. -/
def unifyNewlines : List Char → List Char
  | '\r' :: '\n' :: r => '\n' :: unifyNewlines r
  | c :: r => c :: unifyNewlines r
  | [] => []

/-- The entries of a document. -/
def parse (document : String) : Except Fault Entries :=
  let text := unifyNewlines document.toList
  match (statements {} [] (text.length + 1)).run text with
  | .ok (d, _) => .ok d.entries
  | .error stop => .error (stop.fault text)

end TypeAtlas.Toml
