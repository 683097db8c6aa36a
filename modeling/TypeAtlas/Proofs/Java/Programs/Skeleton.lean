import TypeAtlas.Java.Parser.Variables
import TypeAtlas.Proofs.Java.Programs.Types

namespace TypeAtlas.Java

/-- Names with points between them. -/
structure QualifiedName where
  first : Identifier
  others : List Identifier

structure Import where
  isStatic : Bool
  name : QualifiedName
  isWildcard : Bool

/-- A field or a parameter. -/
structure Variable where
  type : ValueType
  name : Identifier

/-- A method with an empty body. A method without a result returns no type. -/
structure Method where
  returned : Option ValueType
  name : Identifier
  parameters : List Variable

inductive Member
  | field (declared : Variable)
  | method (declared : Method)

/-- A source text with one class. -/
structure Program where
  package : Option QualifiedName
  imports : List Import
  name : Identifier
  base : Option ReferenceType
  interfaces : List ReferenceType
  members : List Member

section Pieces

/-- Names with a point before each. -/
def pointPieces (names : List Identifier) : List Piece :=
  names.flatMap fun i => [.separator '.', .word i.name]

def QualifiedName.pieces (q : QualifiedName) : List Piece :=
  .word q.first.name :: pointPieces q.others

/-- A qualified name as it is written. -/
def QualifiedName.text (q : QualifiedName) : Text :=
  textOf q.pieces

/-- Items with a comma before each. -/
def commaTail {α : Type} (f : α → List Piece) (as : List α) : List Piece :=
  as.flatMap fun a => .separator ',' :: .blank ' ' :: f a

/-- Items with commas between them. -/
def commaPieces {α : Type} (f : α → List Piece) : List α → List Piece
  | [] => []
  | a :: as => f a ++ commaTail f as

def staticPieces (isStatic : Bool) : List Piece :=
  if isStatic then [.word "static", .blank ' '] else []

def starPieces (isWildcard : Bool) : List Piece :=
  if isWildcard then [.separator '.', .operator '*'] else []

def Import.pieces (i : Import) : List Piece :=
  .word "import" :: .blank ' ' :: (staticPieces i.isStatic ++
    (i.name.pieces ++ (starPieces i.isWildcard ++ [.separator ';', .blank '\n'])))

def Variable.pieces (v : Variable) : List Piece :=
  v.type.pieces ++ [.blank ' ', .word v.name.name]

def Method.pieces (m : Method) : List Piece :=
  m.returned.elim [.word "void"] ValueType.pieces ++
    .blank ' ' :: .word m.name.name :: .separator '(' ::
      (commaPieces Variable.pieces m.parameters ++
        [.separator ')', .blank ' ', .separator '{', .separator '}', .blank '\n'])

def Member.pieces : Member → List Piece
  | .field v => v.pieces ++ [.separator ';', .blank '\n']
  | .method m => m.pieces

namespace Program

variable (p : Program)

def packagePieces : List Piece :=
  p.package.elim [] fun q =>
    .word "package" :: .blank ' ' :: (q.pieces ++ [.separator ';', .blank '\n'])

def basePieces : List Piece :=
  p.base.elim [] fun t => .blank ' ' :: .word "extends" :: .blank ' ' :: t.pieces

def interfacePieces : List Piece :=
  if p.interfaces.isEmpty then []
  else
    .blank ' ' :: .word "implements" :: .blank ' ' ::
      commaPieces ReferenceType.pieces p.interfaces

def bodyPieces : List Piece :=
  .separator '{' :: .blank '\n' ::
    (p.members.flatMap Member.pieces ++ [.separator '}', .blank '\n'])

def classPieces : List Piece :=
  .word "class" :: .blank ' ' :: .word p.name.name ::
    (p.basePieces ++ (p.interfacePieces ++ .blank ' ' :: p.bodyPieces))

def pieces : List Piece :=
  p.packagePieces ++ (p.imports.flatMap Import.pieces ++ p.classPieces)

/-- The source text of a program. -/
def source : Text :=
  textOf p.pieces

end Program

end Pieces

section Trees

def Import.tree (i : Import) : Tree :=
  .node .importDeclaration
    [(.path, .word i.name.text), (.isStatic, .flag i.isStatic), (.isWildcard, .flag i.isWildcard)]

def Variable.field (v : Variable) : Tree :=
  .node .field
    [(.annotations, .list []), (.type, v.type.tree),
      (.declarators, .list [Parser.declarator v.name.name 0 .absent])]

def Variable.parameter (v : Variable) : Tree :=
  .node .formalParameter
    [(.annotations, .list []), (.type, v.type.tree), (.name, .word v.name.name),
      (.isVariadic, .flag false)]

def Method.tree (m : Method) : Tree :=
  .node .method
    [(.annotations, .list []), (.name, .word m.name.name),
      (.returnType, m.returned.elim .absent ValueType.tree),
      (.parameters, .list (m.parameters.map Variable.parameter)), (.body, .list [])]

def Member.tree : Member → Tree
  | .field v => v.field
  | .method m => m.tree

namespace Program

variable (p : Program)

def packageTree : Tree :=
  p.package.elim .absent fun q =>
    .node .packageDeclaration [(.annotations, .list []), (.name, .word q.text)]

def classTree : Tree :=
  .node .classDeclaration
    [(.annotations, .list []), (.name, .word p.name.name),
      (.extended, p.base.elim .absent ReferenceType.tree),
      (.implemented, .list (p.interfaces.map ReferenceType.tree)),
      (.body, .list (p.members.map Member.tree))]

/-- The tree of a program. -/
def tree : Tree :=
  .node .compilationUnit
    [(.package, p.packageTree), (.imports, .list (p.imports.map Import.tree)),
      (.types, .list [p.classTree])]

end Program

end Trees

section Legibility

variable {ps : List Piece}

theorem legible_flatMap {α : Type} {f : α → List Piece} {as : List α} (hps : Legible ps)
    (h : ∀ a ∈ as, ∀ {qs : List Piece}, Legible qs → Legible (f a ++ qs)) :
    Legible (as.flatMap f ++ ps) := by
  induction as with
  | nil => exact hps
  | cons a as ih =>
    rw [List.flatMap_cons, List.append_assoc]
    exact h a List.mem_cons_self (ih fun b hb => h b (List.mem_cons_of_mem a hb))

theorem breaksWord_flatMap {α : Type} {f : α → List Piece} {as : List α} (hps : BreaksWord ps)
    (hbreak : ∀ a qs, BreaksWord (f a ++ qs)) : BreaksWord (as.flatMap f ++ ps) := by
  cases as with
  | nil => exact hps
  | cons a as =>
    rw [List.flatMap_cons, List.append_assoc]
    exact hbreak a _

/-- Items each of which starts with something else than a word may end with one. -/
theorem legible_flatMap_of_breaksWord {α : Type} {f : α → List Piece} {as : List α}
    (hps : Legible ps) (hbreak : BreaksWord ps) (hbreaks : ∀ a qs, BreaksWord (f a ++ qs))
    (h : ∀ a ∈ as, ∀ {qs : List Piece}, Legible qs → BreaksWord qs → Legible (f a ++ qs)) :
    Legible (as.flatMap f ++ ps) := by
  induction as with
  | nil => exact hps
  | cons a as ih =>
    rw [List.flatMap_cons, List.append_assoc]
    exact h a List.mem_cons_self (ih fun b hb => h b (List.mem_cons_of_mem a hb))
      (breaksWord_flatMap hbreak hbreaks)

theorem legible_comma {α : Type} {f : α → List Piece} {as : List α} (hps : Legible ps)
    (hbreak : BreaksWord ps)
    (h : ∀ a ∈ as, ∀ {qs : List Piece}, Legible qs → BreaksWord qs → Legible (f a ++ qs)) :
    Legible (commaPieces f as ++ ps) := by
  cases as with
  | nil => exact hps
  | cons a as =>
    have hbreaks : ∀ b qs, BreaksWord ((.separator ',' :: .blank ' ' :: f b) ++ qs) :=
      fun _ _ => breaksWord_cons rfl _
    rw [commaPieces, List.append_assoc]
    refine h a List.mem_cons_self (legible_flatMap_of_breaksWord hps hbreak hbreaks ?_)
      (breaksWord_flatMap hbreak hbreaks)
    exact fun b hb _ hqs hqsbreak => legible_separator (by decide) (by decide)
      (.blank (by decide) (h b (List.mem_cons_of_mem a hb) hqs hqsbreak))

theorem QualifiedName.legible (q : QualifiedName) (hps : Legible ps) (hbreak : BreaksWord ps) :
    Legible (q.pieces ++ ps) := by
  have hbreaks : ∀ (i : Identifier) qs, BreaksWord ([.separator '.', .word i.name] ++ qs) :=
    fun _ _ => breaksWord_cons rfl _
  rw [QualifiedName.pieces, List.cons_append]
  refine q.first.legible (legible_flatMap_of_breaksWord hps hbreak hbreaks ?_)
    (breaksWord_flatMap hbreak hbreaks)
  refine fun i _ _ hqs hqsbreak =>
    .separator (by decide) (fun _ p hp => ?_) (i.legible hqs hqsbreak)
  obtain rfl := Option.some.inj hp
  exact .inl rfl

/-- A keyword with a blank after it. -/
theorem legible_keyword {w : String} (hw : isPlainWord w = true) (hps : Legible ps) :
    Legible (.word w :: .blank ' ' :: ps) :=
  .word hw (breaksWord_cons rfl _) (.blank (by decide) hps)

theorem legible_clauseEnd (hps : Legible ps) : Legible (.separator ';' :: .blank '\n' :: ps) :=
  legible_separator (by decide) (by decide) (.blank (by decide) hps)

theorem Import.legible (i : Import) (hps : Legible ps) : Legible (i.pieces ++ ps) := by
  obtain ⟨isStatic, name, isWildcard⟩ := i
  have hend := legible_clauseEnd hps
  have hname : Legible (name.pieces ++
      (starPieces isWildcard ++ .separator ';' :: .blank '\n' :: ps)) := by
    cases isWildcard with
    | true =>
      refine name.legible (.separator (by decide) (fun _ p hp => ?_)
        (legible_operator (by decide) (by decide) hend)) (breaksWord_cons rfl _)
      obtain rfl := Option.some.inj hp
      exact .inr rfl
    | false => exact name.legible hend (breaksWord_cons rfl _)
  have hstatic : Legible (staticPieces isStatic ++ (name.pieces ++
      (starPieces isWildcard ++ .separator ';' :: .blank '\n' :: ps))) := by
    cases isStatic with
    | true => exact legible_keyword (by decide) hname
    | false => exact hname
  have himport := legible_keyword (w := "import") (by decide) hstatic
  simpa only [Import.pieces, List.cons_append, List.append_assoc, List.nil_append] using himport

theorem ValueType.legible (t : ValueType) (hps : Legible ps) (hbreak : BreaksWord ps) :
    Legible (t.pieces ++ ps) := by
  cases t with
  | scalar type => exact type.legible hps hbreak
  | object type => exact type.legible hps hbreak

theorem Variable.legible (v : Variable) (hps : Legible ps) (hbreak : BreaksWord ps) :
    Legible (v.pieces ++ ps) := by
  rw [Variable.pieces, List.append_assoc]
  exact v.type.legible (.blank (by decide) (v.name.legible hps hbreak)) (breaksWord_cons rfl _)

theorem Method.legible (m : Method) (hps : Legible ps) : Legible (m.pieces ++ ps) := by
  have hbody : Legible (.separator ')' :: .blank ' ' :: .separator '{' :: .separator '}' ::
      .blank '\n' :: ps) :=
    legible_separator (by decide) (by decide) (.blank (by decide)
      (legible_separator (by decide) (by decide)
        (legible_separator (by decide) (by decide) (.blank (by decide) hps))))
  have hparameters : Legible (.separator '(' :: (commaPieces Variable.pieces m.parameters ++
      .separator ')' :: .blank ' ' :: .separator '{' :: .separator '}' :: .blank '\n' :: ps)) :=
    legible_separator (by decide) (by decide)
      (legible_comma hbody (breaksWord_cons rfl _) fun v _ _ => v.legible)
  have hname := Legible.blank (c := ' ') (by decide)
    (m.name.legible hparameters (breaksWord_cons rfl _))
  have hresult : Legible (m.returned.elim [.word "void"] ValueType.pieces ++ .blank ' ' ::
      .word m.name.name :: .separator '(' :: (commaPieces Variable.pieces m.parameters ++
        .separator ')' :: .blank ' ' :: .separator '{' :: .separator '}' :: .blank '\n' ::
          ps)) := by
    cases m.returned with
    | none => exact .word (by decide) (breaksWord_cons rfl _) hname
    | some t => exact t.legible hname (breaksWord_cons rfl _)
  simpa only [Method.pieces, List.append_assoc, List.cons_append, List.nil_append] using hresult

theorem Member.legible (m : Member) (hps : Legible ps) : Legible (m.pieces ++ ps) := by
  cases m with
  | field v =>
    rw [Member.pieces, List.append_assoc]
    exact v.legible (legible_clauseEnd hps) (breaksWord_cons rfl _)
  | method m => exact m.legible hps

/-- The source text of a program can be split into its lexemes. -/
theorem Program.legible (p : Program) : Legible p.pieces := by
  have hend : Legible [.separator '}', .blank '\n'] :=
    legible_separator (by decide) (by decide) (.blank (by decide) .nil)
  have hbody : Legible (.blank ' ' :: p.bodyPieces) :=
    .blank (by decide) (legible_separator (by decide) (by decide) (.blank (by decide)
      (legible_flatMap hend fun m _ _ => m.legible)))
  have hinterfaces : Legible (p.interfacePieces ++ .blank ' ' :: p.bodyPieces) := by
    unfold Program.interfacePieces
    split
    · exact hbody
    · exact .blank (by decide) (legible_keyword (by decide)
        (legible_comma hbody (breaksWord_cons rfl _) fun t _ _ => t.legible))
  have hbreak : BreaksWord (p.interfacePieces ++ .blank ' ' :: p.bodyPieces) := by
    unfold Program.interfacePieces
    split <;> exact breaksWord_cons rfl _
  have hbase : Legible (p.basePieces ++ (p.interfacePieces ++ .blank ' ' :: p.bodyPieces)) ∧
      BreaksWord (p.basePieces ++ (p.interfacePieces ++ .blank ' ' :: p.bodyPieces)) := by
    unfold Program.basePieces
    cases p.base with
    | none => exact ⟨hinterfaces, hbreak⟩
    | some t =>
      exact ⟨.blank (by decide) (legible_keyword (by decide) (t.legible hinterfaces hbreak)),
        breaksWord_cons rfl _⟩
  have hclass : Legible p.classPieces :=
    legible_keyword (by decide) (p.name.legible hbase.1 hbase.2)
  have himports := legible_flatMap hclass fun (i : Import) (_ : i ∈ p.imports) _ => i.legible
  unfold Program.pieces Program.packagePieces
  cases p.package with
  | none => exact himports
  | some q =>
    have hclause := legible_keyword (w := "package") (by decide)
      (q.legible (legible_clauseEnd himports) (breaksWord_cons rfl _))
    simpa only [Option.elim_some, List.cons_append, List.append_assoc, List.nil_append]
      using hclause

end Legibility

end TypeAtlas.Java
