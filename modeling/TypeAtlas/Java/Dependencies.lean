import TypeAtlas.Java.TypeText
import TypeAtlas.NameSet

namespace TypeAtlas.Java

/-- The names of the types that have no declaration. -/
def scalarNames : List String :=
  ["byte", "short", "int", "long", "float", "double", "boolean", "char", "void"]

def isScalar (name : Text) : Bool :=
  scalarNames.any fun scalar => scalar = name

/-- What one source text depends on: the package it declares and the type names it uses. -/
structure Dependencies where
  declaredPackage : Option Text
  names : NameSet
  deriving DecidableEq, Inhabited

/-- Names that start with a nonempty prefix need no mention. -/
def isImplied (implicitPrefix name : Text) : Bool :=
  !implicitPrefix.isEmpty && implicitPrefix.isPrefixOf name

/-- A class, an interface or an enumeration; these have supertypes. -/
def Kind.hasSupertypes (k : Kind) : Bool :=
  k = .classDeclaration || k = .interfaceDeclaration || k = .enumDeclaration

/-- Fields; the constants of an interface are fields. -/
def Kind.isField (k : Kind) : Bool :=
  k = .field || k = .constant

/-- Variables of a block or a loop. -/
def Kind.isVariables (k : Kind) : Bool :=
  k = .loopVariables || k = .localVariables

namespace Tree

/-- The nodes of a tree whose kind is as asked for. -/
def nodesOf (t : Tree) (p : Kind → Bool) : List Tree :=
  t.nodes.filter fun n => n.kind?.any p

/-- The path of an import, if it names a single type or member. -/
def Item.importedPath (i : Item) : Except TreeFault (Option Tree) := do
  if (← i.demand .isWildcard).isGiven then return none
  else match ← i.demand .path with
    | .list _ => throw .listedPath
    | path => return some path

/-- The paths of the imports that name a single type or member. -/
def importedPaths (unit : Tree) : Except TreeFault (List Tree) := do
  let paths ← (← (← unit.demand .imports).items).mapM Item.importedPath
  return paths.filterMap id

/-- The references of a declaration to what it extends: one, or a list of them. -/
def extendedItems (t : Tree) : List Item :=
  match t.part .extended with
  | .list refs => refs.map .value
  | .absent => []
  | ref => [.value ref]

def implementedItems (t : Tree) : Except TreeFault (List Item) :=
  if (t.part .implemented).isGiven then (t.part .implemented).items else .ok []

/-- The references of a declaration to what it extends and implements. -/
def supertypes (t : Tree) : Except TreeFault (List Item) := do
  return t.extendedItems ++ (← t.implementedItems)

def supertypeNames (t : Tree) : Except TreeFault (List Text) := do
  (← t.supertypes).mapM Item.supertypeText

/-- The number of pairs of brackets after the name of a declared variable. -/
def Item.dimensionCount : Item → Except TreeFault Nat
  | .value t => (t.part .dimensions).count
  | .visit => .ok 0

/-- The types of the variables that a node declares, each with the brackets after its name. -/
def declaredTypes (t : Tree) : Except TreeFault (List Text) := do
  (← (← t.demand .declarators).items).mapM fun d => do
    let text ← (t.part .type).typeText
    return text ++ bracketText (← d.dimensionCount)

/-- A type, if there is one. -/
def typeTextIfAny (t : Tree) : Except TreeFault (List Text) :=
  if t.isAbsent then .ok [] else t.typeText.map ([·])

def parameterTypes (m : Tree) : Except TreeFault (List Text) := do
  (← (← m.demand .parameters).items).mapM fun p => do
    (← p.demand .type).typeText

/-- The type that a method returns, if it returns any, and those of its parameters. -/
def signatureTypes (m : Tree) : Except TreeFault (List Text) := do
  return (← (m.part .returnType).typeTextIfAny) ++ (← m.parameterTypes)

def resourceTypes (r : Tree) : Except TreeFault (List Text) :=
  (r.part .type).typeTextIfAny

/-- The texts that `f` finds at the nodes of the given kinds. -/
def textsAt (unit : Tree) (p : Kind → Bool) (f : Tree → Except TreeFault (List Text)) :
    Except TreeFault (List Text) :=
  ((unit.nodesOf p).mapM f).map List.flatten

/-- What a unit names as its package. -/
def declaredPackage (unit : Tree) : Except TreeFault Tree :=
  match unit.part .package with
  | .absent => .ok .absent
  | package => package.demand .name

/-- What a unit refers to. In a tree that was not made from a source text the name of the package
and the paths of imports can be anything; `strangers` are the paths that are no text. -/
structure References where
  package : Tree
  names : NameSet
  strangers : List Tree
  deriving Inhabited

/-- The references of a unit: what it imports, extends or implements as it is, and the types of its
fields, signatures, variables and resources unless they are scalars; less the implied ones, among
which nothing can be but texts. -/
def references (implicitPrefix : Text) (unit : Tree) : Except TreeFault References := do
  let paths ← unit.importedPaths
  let inherited ← unit.textsAt Kind.hasSupertypes supertypeNames
  let fields ← unit.textsAt Kind.isField declaredTypes
  let signatures ← unit.textsAt (· = .method) signatureTypes
  let locals ← unit.textsAt Kind.isVariables declaredTypes
  let resources ← unit.textsAt (· = .resource) resourceTypes
  let typed := (fields ++ signatures ++ locals ++ resources).filter (!isScalar ·)
  let used := paths.filterMap word? ++ inherited ++ typed
  let strangers := paths.filter (·.word?.isNone)
  if let (path :: _, false) := (strangers, implicitPrefix.isEmpty) then throw (.badPath path.shape)
  return {
    package := ← unit.declaredPackage
    names := .ofList (used.filter (!isImplied implicitPrefix ·))
    strangers }

/-- What a unit depends on, as far as it is said in texts. -/
def dependencies (implicitPrefix : Text) (unit : Tree) : Except TreeFault Dependencies := do
  let found ← unit.references implicitPrefix
  return { declaredPackage := found.package.word?, names := found.names }

end Tree

end TypeAtlas.Java
