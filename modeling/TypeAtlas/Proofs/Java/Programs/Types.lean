import TypeAtlas.Proofs.Java.Programs.Lexemes
import TypeAtlas.Proofs.Java.Readable

namespace TypeAtlas.Java

/-- A name that a program may give to what it declares. -/
structure Identifier where
  name : String
  isPlain : isPlainWord name = true
  isIdentifier : Token.kindOfWord name = .identifier

/-- A type whose values are no objects. -/
structure Scalar where
  name : String
  isBasic : name ∈ Token.basicTypes

/-- A word that a type may start with. -/
def IsTypeName (w : String) : Prop :=
  isPlainWord w = true ∧ (Token.kindOfWord w = .identifier ∨ Token.kindOfWord w = .basicType)

instance (w : String) : Decidable (IsTypeName w) :=
  inferInstanceAs (Decidable (_ ∧ _))

theorem Identifier.isTypeName (i : Identifier) : IsTypeName i.name :=
  ⟨i.isPlain, .inl i.isIdentifier⟩

theorem Scalar.isTypeName (t : Scalar) : IsTypeName t.name := by
  have hall : ∀ name ∈ Token.basicTypes, IsTypeName name := by decide
  exact hall _ t.isBasic

theorem Scalar.kindOfWord_name (t : Scalar) : Token.kindOfWord t.name = .basicType := by
  have hall : ∀ name ∈ Token.basicTypes, Token.kindOfWord name = .basicType := by decide
  exact hall _ t.isBasic

theorem IsTypeName.not_mem {w : String} (h : IsTypeName w) {texts : List String}
    (htexts : ∀ s ∈ texts, ¬ IsTypeName s) : w ∉ texts :=
  fun hw => htexts w hw h

/-- What the type that a wildcard is given says about it. -/
inductive Bound
  | upper
  | lower
  deriving DecidableEq, Repr

def Bound.word : Bound → String
  | .upper => "extends"
  | .lower => "super"

mutual

/-- A reference type without brackets: names with points between them, each with the type arguments
at it. -/
inductive ReferenceType
  | last (name : Identifier) (arguments : TypeArguments)
  | link (name : Identifier) (arguments : TypeArguments) (inner : ReferenceType)

/-- The type arguments at a name, if there are any. -/
inductive TypeArguments
  | nil
  | cons (first : TypeArgument) (rest : TypeArguments)

inductive TypeArgument
  | wildcard
  | exact (type : ObjectType)
  | bounded (bound : Bound) (type : ObjectType)

/-- A type whose values are objects: a reference type with any number of pairs of brackets, or a
scalar with one more than `extra`. -/
inductive ObjectType
  | reference (type : ReferenceType) (brackets : Nat)
  | array (element : Scalar) (extra : Nat)

end

/-- The type of a variable, or of what a method returns. -/
inductive ValueType
  | scalar (type : Scalar)
  | object (type : ObjectType)

section Pieces

def bracketPieces (n : Nat) : List Piece :=
  (List.replicate n [.separator '[', .separator ']']).flatten

mutual

/-- How a type is written in a program. -/
def ReferenceType.pieces : ReferenceType → List Piece
  | .last name arguments => .word name.name :: arguments.pieces
  | .link name arguments inner =>
    .word name.name :: (arguments.pieces ++ .separator '.' :: inner.pieces)

def TypeArguments.pieces : TypeArguments → List Piece
  | .nil => []
  | .cons first rest => .operator '<' :: (first.pieces ++ (rest.piecesBehind ++ [.operator '>']))

/-- Type arguments with others before them. -/
def TypeArguments.piecesBehind : TypeArguments → List Piece
  | .nil => []
  | .cons first rest => .separator ',' :: .blank ' ' :: (first.pieces ++ rest.piecesBehind)

def TypeArgument.pieces : TypeArgument → List Piece
  | .wildcard => [.operator '?']
  | .exact type => type.pieces
  | .bounded bound type =>
    .operator '?' :: .blank ' ' :: .word bound.word :: .blank ' ' :: type.pieces

def ObjectType.pieces : ObjectType → List Piece
  | .reference type brackets => type.pieces ++ bracketPieces brackets
  | .array element extra => .word element.name :: bracketPieces (extra + 1)

end

def ValueType.pieces : ValueType → List Piece
  | .scalar type => [.word type.name]
  | .object type => type.pieces

def ReferenceType.text (t : ReferenceType) : Text :=
  textOf t.pieces

/-- A type as it is written. -/
def ValueType.text (t : ValueType) : Text :=
  textOf t.pieces

end Pieces

section Trees

/-- The type arguments of a reference; without any there is no list either. -/
def Tree.ofArguments : List Tree → Tree
  | [] => .absent
  | ts => .list ts

def Scalar.tree (t : Scalar) : Tree :=
  .node .basicType [(.name, .word t.name), (.dimensions, .list [])]

mutual

/-- The node of a type. -/
def ReferenceType.tree : ReferenceType → Tree
  | .last name arguments =>
    .node .referenceType
      [(.name, .word name.name), (.dimensions, .list []),
        (.arguments, .ofArguments arguments.trees), (.inner, .absent)]
  | .link name arguments inner =>
    .node .referenceType
      [(.name, .word name.name), (.dimensions, .list []),
        (.arguments, .ofArguments arguments.trees), (.inner, inner.tree)]

def TypeArguments.trees : TypeArguments → List Tree
  | .nil => []
  | .cons first rest => first.tree :: rest.trees

def TypeArgument.tree : TypeArgument → Tree
  | .wildcard => .node .typeArgument [(.pattern, .word "?")]
  | .exact type => .node .typeArgument [(.type, type.tree)]
  | .bounded bound type => .node .typeArgument [(.type, type.tree), (.pattern, .word bound.word)]

def ObjectType.tree : ObjectType → Tree
  | .reference type brackets => type.tree.addBrackets brackets
  | .array element extra => element.tree.addBrackets (extra + 1)

end

def ValueType.tree : ValueType → Tree
  | .scalar type => type.tree
  | .object type => type.tree

end Trees

/-- The names of a reference type without type arguments. -/
def ReferenceType.names : ReferenceType → List Text
  | .last name _ => [name.name]
  | .link name _ inner => name.name :: inner.names

/-- The name of a reference type without type arguments. -/
def ReferenceType.dotted (t : ReferenceType) : Text :=
  Text.join "." t.names

section Texts

open Tree

/-- The links of a reference type, each with its type arguments. -/
def ReferenceType.links : ReferenceType → List Text
  | .last name arguments => [name.name ++ textOf arguments.pieces]
  | .link name arguments inner => (name.name ++ textOf arguments.pieces) :: inner.links

def TypeArguments.texts : TypeArguments → List Text
  | .nil => []
  | .cons first rest => textOf first.pieces :: rest.texts

theorem TypeArguments.join_texts (as : TypeArguments) (s : Text) :
    Text.join ", " (s :: as.texts) = s ++ textOf as.piecesBehind := by
  match as with
  | .nil => simp [texts, piecesBehind, Text.join]
  | .cons first rest =>
    rw [texts, Text.join, rest.join_texts, piecesBehind]
    · simp [Piece.text, Text.ofString]
    · simp

theorem ReferenceType.join_links (t : ReferenceType) :
    Text.join "." t.links = textOf t.pieces := by
  match t with
  | .last name arguments => simp [links, pieces, Text.join, Piece.text]
  | .link name arguments inner =>
    have ih := inner.join_links
    rw [links, Text.join, ih, pieces]
    · simp [Piece.text, Text.ofString]
    · cases inner <;> simp [links]

/-- A name with its type arguments in angle brackets. -/
theorem TypeArguments.linkOf_trees (as : TypeArguments) (name : Text) :
    linkOf (.word name) (.ofArguments as.trees) as.texts =
      .ok (.word (name ++ textOf as.pieces)) := by
  cases as with
  | nil => simp [trees, ofArguments, linkOf, isGiven, pieces]
  | cons first rest =>
    change Except.ok (Tree.word (name ++ "<" ++
      Text.join ", " (textOf first.pieces :: rest.texts) ++ ">")) = _
    rw [join_texts, pieces]
    simp [Piece.text, Text.ofString]

theorem listed_ofArguments (ts : List Tree) : (Tree.ofArguments ts).listed = ts := by
  cases ts <;> rfl

theorem linkTexts_addBrackets (t : ReferenceType) (n : Nat) :
    (t.tree.addBrackets n).linkTexts = t.tree.linkTexts := by
  cases t <;> simp only [ReferenceType.tree, addBrackets, linkTexts_node] <;> rfl

theorem typeText_reference {t : ReferenceType} {ss : List Text}
    (hlinks : t.tree.linkTexts = .ok (ss.map .word)) (n : Nat) :
    (t.tree.addBrackets n).typeText = .ok (Text.join "." ss ++ bracketText n) := by
  have h : (t.tree.addBrackets n).typeText =
      .ok (Text.join "." ss ++ bracketText (List.replicate n Tree.absent).length) := by
    rw [← linkTexts_addBrackets t n] at hlinks
    cases t <;> exact typeText_referenceType (by simp) hlinks rfl
  rwa [List.length_replicate] at h

theorem argumentText_bounded {t : Tree} {text : Text} (bound : Bound)
    (htext : t.typeText = .ok text) :
    (Tree.node .typeArgument [(.type, t), (.pattern, .word bound.word)]).argumentText =
      .ok ("? " ++ bound.word ++ " " ++ text) := by
  rw [argumentText]
  cases bound with
  | upper =>
    change (t.typeText >>= fun text => pure ("? " ++ "extends" ++ " " ++ text)) = _
    rw [htext]
    rfl
  | lower =>
    change (t.typeText >>= fun text => pure ("? " ++ "super" ++ " " ++ text)) = _
    rw [htext]
    rfl

theorem textOf_bracketPieces (n : Nat) : textOf (bracketPieces n) = bracketText n := by
  induction n with
  | zero => rfl
  | succ n ih =>
    rw [bracketPieces, List.replicate_succ, List.flatten_cons, textOf_append] at *
    rw [ih, bracketText, bracketText, List.replicate_succ, List.flatten_cons]
    rfl

theorem typeText_scalar (t : Scalar) (n : Nat) :
    (t.tree.addBrackets n).typeText = .ok (t.name ++ bracketText n) := by
  have h : (t.tree.addBrackets n).typeText =
      .ok (t.name ++ bracketText (List.replicate n Tree.absent).length) := by
    rw [Scalar.tree, addBrackets, typeText]
    rfl
  rwa [List.length_replicate] at h

mutual

theorem ReferenceType.linkTexts_tree : ∀ t : ReferenceType,
    t.tree.linkTexts = .ok (t.links.map .word)
  | .last name arguments => by
    have htexts := arguments.mapM_trees
    rw [ReferenceType.tree, ReferenceType.links]
    exact linkTexts_referenceType (by rw [listed_ofArguments, htexts]) (arguments.linkOf_trees _)
      linkTexts_absent
  | .link name arguments inner => by
    have htexts := arguments.mapM_trees
    have hinner := inner.linkTexts_tree
    rw [ReferenceType.tree, ReferenceType.links]
    exact linkTexts_referenceType (by rw [listed_ofArguments, htexts]) (arguments.linkOf_trees _)
      hinner

theorem TypeArguments.mapM_trees : ∀ as : TypeArguments,
    as.trees.mapM argumentText = .ok as.texts
  | .nil => rfl
  | .cons first rest => by
    rw [TypeArguments.trees, List.mapM_cons, first.argumentText_tree, ok_bind, rest.mapM_trees]
    rfl

theorem TypeArgument.argumentText_tree : ∀ a : TypeArgument,
    a.tree.argumentText = .ok (textOf a.pieces)
  | .wildcard => by
    rw [TypeArgument.tree, argumentText]
    rfl
  | .exact type => by
    have htype := type.typeText_tree
    rw [TypeArgument.tree, argumentText]
    change (type.tree.typeText >>= fun text => pure text) = _
    rw [htype, TypeArgument.pieces]
    rfl
  | .bounded bound type => by
    have htype := type.typeText_tree
    rw [TypeArgument.tree, argumentText_bounded bound htype, TypeArgument.pieces]
    simp [Piece.text, Text.ofString]

theorem ObjectType.typeText_tree : ∀ t : ObjectType, t.tree.typeText = .ok (textOf t.pieces)
  | .reference type brackets => by
    have hlinks := type.linkTexts_tree
    rw [ObjectType.tree, typeText_reference hlinks, type.join_links, ObjectType.pieces,
      textOf_append, textOf_bracketPieces]
  | .array element extra => by
    rw [ObjectType.tree, typeText_scalar, ObjectType.pieces, textOf_cons, textOf_bracketPieces]
    rfl

end

theorem ReferenceType.addBrackets_zero (t : ReferenceType) : t.tree.addBrackets 0 = t.tree := by
  cases t <;> rfl

theorem ReferenceType.typeText_tree (t : ReferenceType) : t.tree.typeText = .ok t.text := by
  have h := (ObjectType.reference t 0).typeText_tree
  rw [ObjectType.tree, t.addBrackets_zero, ObjectType.pieces, bracketPieces, List.replicate_zero,
    List.flatten_nil, List.append_nil] at h
  exact h

theorem ValueType.typeText_tree (t : ValueType) : t.tree.typeText = .ok t.text := by
  cases t with
  | scalar type =>
    have h := typeText_scalar type 0
    rw [bracketText, List.replicate_zero, List.flatten_nil, List.append_nil] at h
    rw [text, pieces, textOf_cons, textOf_nil, List.append_nil]
    exact h
  | object type => exact type.typeText_tree

theorem ReferenceType.chainNames_tree (t : ReferenceType) :
    t.tree.chainNames = .ok (t.names.map .word) := by
  match t with
  | .last name arguments => exact chainNames_of_inner rfl chainNames_absent
  | .link name arguments inner =>
    have hinner := inner.chainNames_tree
    exact chainNames_of_inner rfl hinner

end Texts

section Legibility

/-- What comes first is no word. -/
def BreaksWord (ps : List Piece) : Prop :=
  ∀ p ∈ ps.head?, p.isWord = false

theorem breaksWord_cons {p : Piece} (h : p.isWord = false) (ps : List Piece) :
    BreaksWord (p :: ps) := by
  intro q hq
  obtain rfl := Option.some.inj hq
  exact h

theorem Identifier.legible (i : Identifier) {ps : List Piece} (hps : Legible ps)
    (hbreak : BreaksWord ps) : Legible (.word i.name :: ps) :=
  .word i.isPlain hbreak hps

theorem Scalar.legible (t : Scalar) {ps : List Piece} (hps : Legible ps)
    (hbreak : BreaksWord ps) : Legible (.word t.name :: ps) :=
  .word t.isTypeName.1 hbreak hps

theorem legible_separator {c : Char} {ps : List Piece} (hc : c ∈ Token.separators) (hne : c ≠ '.')
    (hps : Legible ps) : Legible (.separator c :: ps) :=
  .separator hc (fun h => absurd h hne) hps

theorem legible_operator {c : Char} {ps : List Piece} (hc : c ∈ typeMarks) (hne : c ≠ '<')
    (hps : Legible ps) : Legible (.operator c :: ps) :=
  .operator hc (fun h => absurd h hne) hps

@[simp] theorem bracketPieces_zero : bracketPieces 0 = [] :=
  rfl

theorem bracketPieces_succ (n : Nat) :
    bracketPieces (n + 1) = .separator '[' :: .separator ']' :: bracketPieces n := by
  rw [bracketPieces, List.replicate_succ, List.flatten_cons, bracketPieces]
  rfl

theorem legible_brackets (n : Nat) {ps : List Piece} (hps : Legible ps) :
    Legible (bracketPieces n ++ ps) := by
  induction n with
  | zero => exact hps
  | succ n ih =>
    rw [bracketPieces_succ]
    exact legible_separator (by decide) (by decide) (legible_separator (by decide) (by decide) ih)

theorem breaksWord_brackets (n : Nat) {ps : List Piece} (hps : BreaksWord ps) :
    BreaksWord (bracketPieces n ++ ps) := by
  cases n with
  | zero => exact hps
  | succ n =>
    rw [bracketPieces_succ]
    exact breaksWord_cons rfl _

theorem TypeArguments.breaksWord (as : TypeArguments) {ps : List Piece} (hps : BreaksWord ps) :
    BreaksWord (as.pieces ++ ps) := by
  cases as with
  | nil => exact hps
  | cons first rest => exact breaksWord_cons rfl _

theorem TypeArguments.breaksWord_behind (as : TypeArguments) {ps : List Piece}
    (hps : BreaksWord ps) : BreaksWord (as.piecesBehind ++ ps) := by
  cases as with
  | nil => exact hps
  | cons first rest => exact breaksWord_cons rfl _

theorem ReferenceType.exists_pieces (t : ReferenceType) :
    ∃ (name : Identifier) (ps : List Piece), t.pieces = .word name.name :: ps := by
  cases t <;> exact ⟨_, _, rfl⟩

theorem ObjectType.exists_pieces (t : ObjectType) :
    ∃ w ps, t.pieces = .word w :: ps ∧ IsTypeName w := by
  cases t with
  | reference type brackets =>
    obtain ⟨name, ps, h⟩ := type.exists_pieces
    exact ⟨name.name, _, by rw [pieces, h]; rfl, name.isTypeName⟩
  | array element extra => exact ⟨_, _, rfl, element.isTypeName⟩

theorem TypeArgument.ne_less_head (a : TypeArgument) (ps : List Piece) :
    ∀ p ∈ (a.pieces ++ ps).head?, p ≠ .operator '<' := by
  intro p hp
  cases a with
  | wildcard | bounded =>
    obtain rfl := Option.some.inj hp
    simp
  | exact type =>
    obtain ⟨w, qs, h, _⟩ := type.exists_pieces
    rw [pieces, h] at hp
    obtain rfl := Option.some.inj hp
    simp

theorem TypeArguments.piecesBehind_append (first : TypeArgument) (rest : TypeArguments)
    (ps : List Piece) : (TypeArguments.cons first rest).piecesBehind ++ ps =
      .separator ',' :: .blank ' ' :: (first.pieces ++ (rest.piecesBehind ++ ps)) := by
  simp [piecesBehind]

theorem TypeArguments.pieces_append (first : TypeArgument) (rest : TypeArguments)
    (ps : List Piece) : (TypeArguments.cons first rest).pieces ++ ps =
      .operator '<' :: (first.pieces ++ (rest.piecesBehind ++ .operator '>' :: ps)) := by
  simp [pieces]

theorem ReferenceType.pieces_append (name : Identifier) (arguments : TypeArguments)
    (inner : ReferenceType) (ps : List Piece) :
    (ReferenceType.link name arguments inner).pieces ++ ps =
      .word name.name :: (arguments.pieces ++ .separator '.' :: (inner.pieces ++ ps)) := by
  simp [pieces]

mutual

/-- A type can be told apart from what comes after it. -/
theorem ReferenceType.legible : ∀ (t : ReferenceType) {ps : List Piece}, Legible ps →
    BreaksWord ps → Legible (t.pieces ++ ps)
  | .last name arguments, _, hps, hbreak => by
    rw [ReferenceType.pieces]
    exact name.legible (arguments.legible hps) (arguments.breaksWord hbreak)
  | .link name arguments inner, ps, hps, hbreak => by
    obtain ⟨w, qs, hinner⟩ := inner.exists_pieces
    have hpoint : Legible (.separator '.' :: (inner.pieces ++ ps)) := by
      refine .separator (by decide) (fun _ p hp => ?_) (inner.legible hps hbreak)
      rw [hinner] at hp
      obtain rfl := Option.some.inj hp
      exact .inl rfl
    rw [ReferenceType.pieces_append]
    exact name.legible (arguments.legible hpoint) (arguments.breaksWord (breaksWord_cons rfl _))

theorem TypeArguments.legible : ∀ (as : TypeArguments) {ps : List Piece}, Legible ps →
    Legible (as.pieces ++ ps)
  | .nil, _, hps => hps
  | .cons first rest, ps, hps => by
    have hclose : Legible (.operator '>' :: ps) := legible_operator (by decide) (by decide) hps
    have hbreak : BreaksWord (.operator '>' :: ps) := breaksWord_cons rfl _
    rw [TypeArguments.pieces_append]
    exact .operator (by decide) (fun _ => first.ne_less_head _)
      (first.legible (rest.legible_behind hclose hbreak) (rest.breaksWord_behind hbreak))

theorem TypeArguments.legible_behind : ∀ (as : TypeArguments) {ps : List Piece}, Legible ps →
    BreaksWord ps → Legible (as.piecesBehind ++ ps)
  | .nil, _, hps, _ => hps
  | .cons first rest, _, hps, hbreak => by
    rw [TypeArguments.piecesBehind_append]
    exact legible_separator (by decide) (by decide) (.blank (by decide)
      (first.legible (rest.legible_behind hps hbreak) (rest.breaksWord_behind hbreak)))

theorem TypeArgument.legible : ∀ (a : TypeArgument) {ps : List Piece}, Legible ps →
    BreaksWord ps → Legible (a.pieces ++ ps)
  | .wildcard, _, hps, _ => legible_operator (by decide) (by decide) hps
  | .exact type, _, hps, hbreak => by
    rw [TypeArgument.pieces]
    exact type.legible hps hbreak
  | .bounded bound type, _, hps, hbreak => by
    have hbound : isPlainWord bound.word = true := by cases bound <;> decide
    rw [TypeArgument.pieces]
    exact legible_operator (by decide) (by decide) (.blank (by decide)
      (.word hbound (breaksWord_cons rfl _) (.blank (by decide) (type.legible hps hbreak))))

theorem ObjectType.legible : ∀ (t : ObjectType) {ps : List Piece}, Legible ps →
    BreaksWord ps → Legible (t.pieces ++ ps)
  | .reference type brackets, _, hps, hbreak => by
    rw [ObjectType.pieces, List.append_assoc]
    exact type.legible (legible_brackets brackets hps) (breaksWord_brackets brackets hbreak)
  | .array element extra, _, hps, hbreak => by
    rw [ObjectType.pieces, List.cons_append]
    exact element.legible (legible_brackets _ hps) (breaksWord_brackets _ hbreak)

end

end Legibility

end TypeAtlas.Java
