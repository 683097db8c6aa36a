import TypeAtlas.Text.Basic

namespace TypeAtlas.Java

/-- What a node of a syntax tree stands for. -/
inductive Kind
  | compilationUnit
  | packageDeclaration
  | importDeclaration
  | classDeclaration
  | enumDeclaration
  | interfaceDeclaration
  | annotationDeclaration
  | enumBody
  | enumConstant
  | method
  | constructor
  | field
  | constant
  | loopVariables
  | localVariables
  | declarator
  | formalParameter
  | resource
  | tryStatement
  | lambda
  | annotationMethod
  | annotationUse
  | primary
  | classCreator
  | basicType
  | plainType
  | referenceType
  | typeArgument
  | other (name : String)
  deriving DecidableEq, Repr, Inhabited

/-- The name of a part of a node. -/
inductive Part
  | package
  | imports
  | types
  | name
  | path
  | isStatic
  | isWildcard
  | body
  | extended
  | implemented
  | annotations
  | constants
  | declarations
  | parameters
  | returnType
  | type
  | declarators
  | dimensions
  | initializer
  | isVariadic
  | value
  | resources
  | block
  | defaultValue
  | element
  | arguments
  | selectors
  | pattern
  | inner
  | other (name : String)
  deriving DecidableEq, Repr, Inhabited

/-- The parts that the nodes of a kind have, in the order in which they are gone through. -/
def Kind.parts : Kind → List Part
  | .compilationUnit => [.package, .imports, .types]
  | .packageDeclaration => [.annotations, .name]
  | .importDeclaration => [.path, .isStatic, .isWildcard]
  | .classDeclaration => [.annotations, .name, .body, .extended, .implemented]
  | .enumDeclaration => [.annotations, .name, .body, .implemented]
  | .interfaceDeclaration => [.annotations, .name, .body, .extended]
  | .annotationDeclaration => [.annotations, .name, .body]
  | .enumBody => [.constants, .declarations]
  | .enumConstant => [.annotations, .name, .arguments, .body]
  | .method => [.annotations, .returnType, .name, .parameters, .body]
  | .constructor => [.annotations, .name, .parameters, .body]
  | .field | .constant | .loopVariables | .localVariables => [.annotations, .type, .declarators]
  | .declarator => [.name, .dimensions, .initializer]
  | .formalParameter => [.annotations, .type, .name, .isVariadic]
  | .resource => [.annotations, .type, .name, .value]
  | .tryStatement => [.resources, .block]
  | .lambda => [.parameters, .body]
  | .annotationMethod => [.annotations, .name, .returnType, .dimensions, .defaultValue]
  | .annotationUse => [.name, .element]
  | .primary => [.value, .selectors]
  | .classCreator => [.selectors, .type, .arguments, .body]
  | .basicType | .plainType => [.name, .dimensions]
  | .referenceType => [.name, .dimensions, .arguments, .inner]
  | .typeArgument => [.type, .pattern]
  | .other _ => []

/-- A syntax tree, or a value that a part of one can have. A part that is not listed is absent. -/
inductive Tree
  | absent
  | flag (b : Bool)
  | number (n : Int)
  | word (text : Text)
  | list (items : List Tree)
  | node (kind : Kind) (parts : List (Part × Tree))
  deriving Repr, Inhabited

namespace Tree

def kind? : Tree → Option Kind
  | .node k _ => some k
  | _ => none

/-- The value of a part; the first entry counts. -/
def part (t : Tree) (p : Part) : Tree :=
  match t with
  | .node _ parts => (parts.find? fun entry => entry.1 = p).elim .absent (·.2)
  | _ => .absent

/-- The node with the given parts in the order of its kind. Of two values of a part the last one
counts. -/
def ofParts (k : Kind) (given : List (Part × Tree)) : Tree :=
  let known := k.parts.filterMap fun p => given.reverse.find? (·.1 = p)
  .node k (known ++ given.filter fun entry => !k.parts.contains entry.1)

def isAbsent : Tree → Bool
  | .absent => true
  | _ => false

mutual

/-- The nodes of a tree, a node before those in its parts. -/
def nodes : Tree → List Tree
  | .node k parts => .node k parts :: nodesOfParts parts
  | .list items => nodesOfList items
  | _ => []

def nodesOfList : List Tree → List Tree
  | [] => []
  | t :: ts => nodes t ++ nodesOfList ts

def nodesOfParts : List (Part × Tree) → List Tree
  | [] => []
  | (_, t) :: ts => nodes t ++ nodesOfParts ts

end

/-- `Within t u` says that `t` is `u` or an item of the list `u`, at any depth of lists. -/
inductive Within (t : Tree) : Tree → Prop
  | here : Within t t
  | item {u : Tree} {items : List Tree} : u ∈ items → Within t u → Within t (.list items)

/-- `Reachable root n` says that one comes from `root` to the node `n` by going from a node to the
value of one of its parts, or to an item of a list. -/
inductive Reachable (root : Tree) : Tree → Prop
  | start {k : Kind} {parts : List (Part × Tree)} :
      Within (.node k parts) root → Reachable root (.node k parts)
  | step {k l : Kind} {parts others : List (Part × Tree)} {p : Part} {v : Tree} :
      Reachable root (.node k parts) → (p, v) ∈ parts → Within (.node l others) v →
        Reachable root (.node l others)

end Tree

end TypeAtlas.Java
