import TypeAtlas.Java.Shape

namespace TypeAtlas.Java.Tree

/-- The words in a chain of which the first link has the number `index`. -/
def chainWords (index : Nat) : List Tree → Except TreeFault (List Text)
  | [] => .ok []
  | .word s :: links => (chainWords (index + 1) links).map (s :: ·)
  | t :: _ => .error (.badLink index t.shape)

/-- The words of a chain in one text, with points between them. -/
def joinChain (links : List Tree) : Except TreeFault Text :=
  (chainWords 0 links).map (Text.join ".")

/-- The text for `n` pairs of brackets. -/
def bracketText (n : Nat) : Text :=
  (List.replicate n ("[]" : Text)).flatten

/-- The trees in a list. -/
def listed : Tree → List Tree
  | .list xs => xs
  | _ => []

theorem sizeOf_lt_of_mem_listed {t u : Tree} (h : u ∈ t.listed) : sizeOf u < sizeOf t := by
  cases t with
  | list xs =>
    have := List.sizeOf_lt_of_mem (show u ∈ xs from h)
    simp
    omega
  | absent | flag | number | word | node => simp [listed] at h

/-- A name with type arguments after it. A list stays one whatever is put after it. -/
def withArguments (name : Tree) (arguments : List Text) : Except TreeFault Tree :=
  match name with
  | .word s => .ok (.word (s ++ "<" ++ Text.join ", " arguments ++ ">"))
  | .list items => .ok (.list items)
  | _ => .error (.badGeneric name.shape)

/-- Why there are no type arguments in a value that is no list. -/
def argumentFault : Tree → TreeFault
  | .word _ => .noPart .word .pattern
  | .node .. => .noPart .visit .pattern
  | t => .noItems t.shape

mutual

/-- A type as it is written in a source text. An absent type is that of a method without a
result. -/
def typeText (t : Tree) : Except TreeFault Text :=
  match t with
  | .absent => .ok "void"
  | .node k parts => do
    let name ←
      if k = .basicType then (Tree.node k parts).demand .name
      else (joinChain (← linkTexts (.node k parts))).map .word
    let dimensions ← (← (Tree.node k parts).demand .dimensions).count
    match name with
    | .word s => return s ++ bracketText dimensions
    | _ => throw (.badBasic name.shape)
  | _ => .error (.noPart t.shape .name)
termination_by (sizeOf t, 2)

/-- The links of a reference type, each with its type arguments. -/
def linkTexts (t : Tree) : Except TreeFault (List Tree) :=
  match t with
  | .absent => .ok []
  | .node k parts => do
    let name ← (Tree.node k parts).demand .name
    let arguments ← ((Tree.node k parts).part .arguments).listed.attach.mapM fun ⟨a, h⟩ =>
      have := Nat.lt_trans (sizeOf_lt_of_mem_listed h) (sizeOf_part_lt k parts .arguments)
      argumentText a
    let link ←
      if !((Tree.node k parts).part .arguments).isGiven then pure name
      else if arguments.isEmpty then throw (argumentFault ((Tree.node k parts).part .arguments))
      else withArguments name arguments
    have := sizeOf_part_lt k parts .inner
    return link :: (← linkTexts ((Tree.node k parts).part .inner))
  | _ => .error (.noPart t.shape .name)
termination_by (sizeOf t, 1)
decreasing_by
  all_goals exact Prod.Lex.left _ _ (by simpa using this)

/-- A type argument: a type, a question mark, or a question mark with a bound. -/
def argumentText (t : Tree) : Except TreeFault Text :=
  match t with
  | .node k parts => do
    have := sizeOf_part_lt k parts .type
    let pattern ← (Tree.node k parts).demand .pattern
    if pattern.word? = some "?" then return "?"
    else
      let text ← typeText ((Tree.node k parts).part .type)
      match pattern with
      | .word s => return if s = "extends" ∨ s = "super" then "? " ++ s ++ " " ++ text else text
      | _ => return text
  | _ => .error (.noPart t.shape .pattern)
termination_by (sizeOf t, 0)

end

/-- The names of a chain of references without their type arguments. -/
def chainNames (t : Tree) : Except TreeFault (List Tree) :=
  match t with
  | .absent => .ok []
  | .node k parts => do
    have := sizeOf_part_lt k parts .inner
    let name ← (Tree.node k parts).demand .name
    return name :: (← chainNames ((Tree.node k parts).part .inner))
  | _ => .error (.noPart t.shape .name)
termination_by sizeOf t

/-- The name by which a declaration refers to a type it extends or implements. -/
def Item.supertypeText : Item → Except TreeFault Text
  | .value t => do joinChain (← t.chainNames)
  | .visit => .error (.noPart .visit .name)

end TypeAtlas.Java.Tree
