import TypeAtlas.Java.Tree

namespace TypeAtlas.Java

/-- What sort of value is met in a tree. -/
inductive Shape
  | absent
  | flag
  | number
  | word
  | list
  | node (kind : Kind)
  /-- A node below another one, along with the way to it. -/
  | visit
  deriving DecidableEq, Repr, Inhabited

/-- What a syntax tree can lack that a reading of it needs. -/
inductive TreeFault
  /-- A value is asked for a part that it does not have. -/
  | noPart (owner : Shape) (wanted : Part)
  /-- A value without items is gone through item by item. -/
  | noItems (shape : Shape)
  /-- A value without a length is asked for it. -/
  | noLength (shape : Shape)
  /-- A link in a chain, counted from zero, has this for a name. -/
  | badLink (index : Nat) (shape : Shape)
  /-- A reference with type arguments has this for a name. -/
  | badGeneric (shape : Shape)
  /-- A basic type has this for a name. -/
  | badBasic (shape : Shape)
  /-- An import has a list for a path. -/
  | listedPath
  /-- An import has this for a path. -/
  | badPath (shape : Shape)
  deriving DecidableEq, Repr, Inhabited

namespace Tree

def shape : Tree → Shape
  | .absent => .absent
  | .flag _ => .flag
  | .number _ => .number
  | .word _ => .word
  | .list _ => .list
  | .node k _ => .node k

/-- Whether a value says anything: it is neither absent nor false, nor zero or empty. -/
def isGiven : Tree → Bool
  | .absent => false
  | .flag b => b
  | .number n => n ≠ 0
  | .word s => !s.isEmpty
  | .list xs => !xs.isEmpty
  | .node .. => true

def word? : Tree → Option Text
  | .word s => some s
  | _ => none

/-- The value of a part of a node that has such a part. -/
def demand (t : Tree) (p : Part) : Except TreeFault Tree :=
  if t.kind?.any (·.parts.contains p) || !(t.part p).isAbsent then .ok (t.part p)
  else .error (.noPart t.shape p)

/-- What one meets in going through a value item by item. -/
inductive Item
  | value (t : Tree)
  | visit
  deriving Repr, Inhabited

def Item.demand (i : Item) (p : Part) : Except TreeFault Tree :=
  match i with
  | .value t => t.demand p
  | .visit => .error (.noPart .visit p)

/-- The items of a list, the characters of a word, or visits to a node and to those below it. -/
def items : Tree → Except TreeFault (List Item)
  | .list xs => .ok (xs.map .value)
  | .word s => .ok (s.map fun c => .value (.word [c]))
  | .node k parts => .ok ((Tree.node k parts).nodes.map fun _ => .visit)
  | t => .error (.noItems t.shape)

/-- The number of items of a list or of characters of a word. What says nothing has none. -/
def count : Tree → Except TreeFault Nat
  | .list xs => .ok xs.length
  | .word s => .ok s.length
  | t => if t.isGiven then .error (.noLength t.shape) else .ok 0

theorem sizeOf_part_lt (k : Kind) (parts : List (Part × Tree)) (p : Part) :
    sizeOf ((Tree.node k parts).part p) < 1 + sizeOf k + sizeOf parts := by
  simp only [part]
  cases h : parts.find? fun entry => entry.1 = p with
  | none =>
    have hpos : 0 < sizeOf parts := by
      cases parts <;> simp only [List.nil.sizeOf_spec, List.cons.sizeOf_spec] <;> omega
    simp only [Option.elim]
    simp
    omega
  | some entry =>
    obtain ⟨q, t⟩ := entry
    have := List.sizeOf_lt_of_mem (List.mem_of_find?_eq_some h)
    simp only [Option.elim]
    simp at this
    omega

end Tree

end TypeAtlas.Java
