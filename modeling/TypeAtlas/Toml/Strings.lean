import TypeAtlas.Toml.Fault

namespace TypeAtlas.Toml

/-- The length of the text before the first occurrence of `stop`. -/
def lengthBefore (stop : List Char) : List Char → Option Nat
  | [] => none
  | c :: r => if stop.isPrefixOf (c :: r) then some 0 else (lengthBefore stop r).map (· + 1)

/-- Reads `length` characters, none of which may be illegal. -/
def readLegal (illegal : Char → Bool) (length : Nat) : Reader (List Char) := do
  let rest ← get
  let taken := rest.take length
  match taken.find? illegal with
  | some c => Reader.stopAt (.strangeCharacter c) (rest.dropWhile (!illegal ·))
  | none =>
    Reader.skip length
    return taken

/-- Reads up to `stop`, which must come. -/
def readUntil (stop : String) (illegal : Char → Bool) : Reader (List Char) := do
  match lengthBefore stop.toList (← get) with
  | some length => readLegal illegal length
  | none => Reader.stopAt (.missing stop) []

/-- Passes over a comment, up to the end of its line. -/
def skipComment : Reader Unit := do
  if (← Reader.peek) = some '#' then
    Reader.skip 1
    let rest ← get
    discard <| readLegal isControl ((lengthBefore ['\n'] rest).getD rest.length)

/-- A string between apostrophes, in which nothing is escaped. -/
def literalString : Reader Text := do
  Reader.skip 1
  let t ← readUntil "'" isControl
  Reader.skip 1
  return t.map Char.toNat

def hexValue? (c : Char) : Option Nat :=
  if '0' ≤ c ∧ c ≤ '9' then some (c.toNat - '0'.toNat)
  else if 'a' ≤ c ∧ c ≤ 'f' then some (c.toNat - 'a'.toNat + 10)
  else if 'A' ≤ c ∧ c ≤ 'F' then some (c.toNat - 'A'.toNat + 10)
  else none

/-- The character that the next `width` hexadecimal digits name. -/
def hexCharacter (width : Nat) : Reader (List Char) := do
  let digits := (← get).take width
  match digits.mapM hexValue? with
  | some values =>
    if values.length ≠ width then Reader.stop .badHexValue
    else
      Reader.skip width
      let n := values.foldl (fun n d => n * 16 + d) 0
      if n.isValidChar then return [Char.ofNat n] else Reader.stop .notAScalar
  | none => Reader.stop .badHexValue

def escapeValue? (c : Char) : Option Char :=
  match c with
  | 'b' => some '\x08'
  | 't' => some '\t'
  | 'n' => some '\n'
  | 'f' => some '\x0c'
  | 'r' => some '\r'
  | '"' => some '"'
  | '\\' => some '\\'
  | _ => none

/-- What a backslash and the characters after it stand for. In a string of several lines a backslash
at the end of a line hides the line feed and the blanks that follow. -/
def escape (inLines : Bool) : Reader (List Char) := do
  let letter := (← get)[1]?
  Reader.skip 2
  match letter with
  | none => Reader.stop .strayBackslash
  | some c =>
    if inLines && isSpaceOrNewline c then
      unless c = '\n' do
        Reader.skipWhile isSpace
        match ← Reader.peek with
        | none => return []
        | some d => if d = '\n' then Reader.skip 1 else Reader.stop .strayBackslash
      Reader.skipWhile isSpaceOrNewline
      return []
    else if c = 'u' then hexCharacter 4
    else if c = 'U' then hexCharacter 8
    else match escapeValue? c with
      | some d => return [d]
      | none => Reader.stop .strayBackslash

/-- The rest of a string after its opening quotes. The fuel bounds the number of characters. -/
def basicRest (inLines : Bool) : Nat → Reader (List Char)
  | 0 => Reader.stop .openString
  | fuel + 1 => do
    match ← Reader.peek with
    | none => Reader.stop .openString
    | some '"' =>
      if inLines then
        if ← Reader.accept "\"\"\"" then return []
        else
          Reader.skip 1
          return '"' :: (← basicRest inLines fuel)
      else
        Reader.skip 1
        return []
    | some '\\' =>
      let meant ← escape inLines
      return meant ++ (← basicRest inLines fuel)
    | some c =>
      if (if inLines then isControlInLines c else isControl c) then
        Reader.stop (.illegalCharacter c)
      else
        Reader.skip 1
        return c :: (← basicRest inLines fuel)

def basicString : Reader Text := do
  Reader.skip 1
  return (← basicRest false ((← get).length + 1)).map Char.toNat

/-- A string of several lines. A line feed right after the opening quotes does not count, and up to
two quotes may stand before the closing ones. -/
def linesString (quote : Char) : Reader Text := do
  Reader.skip 3
  discard <| Reader.accept "\n"
  let text ←
    if quote = '"' then basicRest true ((← get).length + 1)
    else
      let t ← readUntil "'''" isControlInLines
      Reader.skip 3
      pure t
  if (← Reader.peek) = some quote then
    Reader.skip 1
    if (← Reader.peek) = some quote then
      Reader.skip 1
      return (text ++ [quote, quote]).map Char.toNat
    else return (text ++ [quote]).map Char.toNat
  else return text.map Char.toNat

/-- The characters of a key without quotes. -/
def isBareKey (c : Char) : Bool :=
  c.isAlphanum || c = '-' || c = '_'

def keyPart : Reader Text := do
  match ← Reader.peek with
  | some '\'' => literalString
  | some '"' => basicString
  | some c =>
    if isBareKey c then
      let name := (← get).takeWhile isBareKey
      Reader.skip name.length
      return name.map Char.toNat
    else Reader.stop .badKey
  | none => Reader.stop .badKey

/-- The parts of a key after the first, each after a dot. -/
def keyRest : Nat → Reader Key
  | 0 => return []
  | fuel + 1 => do
    Reader.skipWhile isSpace
    if ← Reader.accept "." then
      Reader.skipWhile isSpace
      let part ← keyPart
      return part :: (← keyRest fuel)
    else return []

def key : Reader Key := do
  let first ← keyPart
  return first :: (← keyRest ((← get).length + 1))

end TypeAtlas.Toml
