namespace TypeAtlas.Java

/-- A place in a source text, counted from one in code points. -/
structure Position where
  line : Nat
  column : Nat
  deriving DecidableEq, Repr, Inhabited

inductive TokenKind
  | identifier
  | keyword
  | modifier
  | basicType
  | literal
  | separator
  | operator
  | atSign
  deriving DecidableEq, Repr, Inhabited

structure Token where
  kind : TokenKind
  text : String
  position : Position
  deriving DecidableEq, Repr, Inhabited

namespace Token

def modifiers : List String :=
  ["abstract", "default", "final", "native", "private", "protected", "public", "static", "strictfp",
    "synchronized", "transient", "volatile"]

def basicTypes : List String :=
  ["boolean", "byte", "char", "double", "float", "int", "long", "short"]

def constants : List String :=
  ["true", "false", "null"]

def keywords : List String :=
  ["assert", "break", "case", "catch", "class", "const", "continue", "do", "else", "enum",
    "extends", "finally", "for", "goto", "if", "implements", "import", "instanceof", "interface",
    "new", "package", "return", "super", "switch", "this", "throw", "throws", "try", "void", "while"]

/-- The kind of a token written like a name. -/
def kindOfWord (word : String) : TokenKind :=
  if modifiers.contains word then .modifier
  else if basicTypes.contains word then .basicType
  else if constants.contains word then .literal
  else if keywords.contains word then .keyword
  else .identifier

/-- The operators, the longer before the shorter: the first that fits is the longest. A run of `>`
is read one at a time, since it may close type arguments. -/
def operators : List String :=
  [">>>=", ">>=", "<<=", "...", "%=", "^=", "|=", "&=", "/=", "*=", "-=", "+=", "<<", "--", "++",
    "||", "&&", "!=", ">=", "<=", "==", "->", "::", "%", "^", "|", "&", "/", "*", "-", "+", ":",
    "?", "~", "!", "<", ">", "="]

/-- The text of an opening brace. -/
def openBrace : String := "\x7b"

/-- The text of a closing brace. -/
def closeBrace : String := "\x7d"

def separators : List Char :=
  ['(', ')', '{', '}', '[', ']', ';', ',', '.']

end Token

export Token (openBrace closeBrace)

end TypeAtlas.Java
