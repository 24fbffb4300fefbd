import CrossReference.Proofs.Tree.Scopes

/-!
# The names of a file

`occurrences` lists the names that stand in the tree of a file, in the order of the text, each with
its position and with what is in force there. It is read off the nodes of the file: only namespaces,
imports and enclosing types count for what is in force, and no catalog and no variable has a part in
it.
-/

namespace CrossReference

open CrossReference.Tree

/-- Where a name can stand. -/
inductive NamePosition where
  /-- In the type of a parameter, a property or a result. -/
  | hint
  /-- In a catch clause. -/
  | caught
  /-- In an extends clause. -/
  | extended
  /-- In an implements clause. -/
  | implemented
  /-- In a use clause of a type. -/
  | mixedIn
  /-- The class of a new object. -/
  | instantiated
  /-- The class whose static method or property is accessed. -/
  | accessed
  /-- The class whose constant is read. -/
  | constantOwner
  /-- The class that a value is tested for. -/
  | tested
  /-- A function that is called. -/
  | called
  /-- A constant that is read. -/
  | constant
deriving DecidableEq, Inhabited

namespace NamePosition

/-- The position of a class in an expression. -/
def ofOperand : OperandPosition → NamePosition
  | .instantiated => instantiated
  | .accessed => accessed
  | .constantOwner => constantOwner
  | .tested => tested

/-- The family of the names at a position. -/
def kind : NamePosition → NameKind
  | called => .function
  | constant => .constant
  | _ => .classLike

/-- The kind of site that a name at a position is. -/
def role : NamePosition → UsageKind
  | hint => .typePosition
  | caught => .typePosition
  | extended => .inheritanceClause
  | implemented => .inheritanceClause
  | mixedIn => .inheritanceClause
  | instantiated => .instantiation
  | accessed => .staticMemberAccess
  | constantOwner => .constantAccess
  | tested => .typePosition
  | called => .functionCall
  | constant => .constantAccess

/-- Whether nothing but a class can be named at a position; a type can also be a keyword. -/
def isClassOnly : NamePosition → Bool
  | hint => false
  | called => false
  | constant => false
  | _ => true

theorem kind_of_isClassOnly {position : NamePosition} (h : position.isClassOnly = true) :
    position.kind = .classLike := by
  cases position with
  | hint => exact absurd h (by simp [isClassOnly])
  | called => exact absurd h (by simp [isClassOnly])
  | constant => exact absurd h (by simp [isClassOnly])
  | _ => rfl

theorem kind_ofOperand (position : OperandPosition) : (ofOperand position).kind = .classLike := by
  cases position <;> rfl

end NamePosition

/-- A name in a file, with what is in force where it stands. -/
structure Occurrence where
  context : Context
  position : NamePosition
  name : Word

namespace PlacedNode

/-- Names that a node has at one position. -/
def named (x : PlacedNode) (position : NamePosition) (words : List Word) : List Occurrence :=
  words.map fun word => { context := x.scope.context, position := position, name := word }

/-- The names that a node has itself. A type encloses its members but not its clauses. -/
def occurrences (x : PlacedNode) : List Occurrence :=
  match x.node with
  | .expr (.call (.named word) _ _) => x.named .called [word]
  | .expr (.constant word) => x.named .constant [word]
  | .operand position (.named word) => x.named (.ofOperand position) [word]
  | .typeHint hint => x.named .hint hint.names
  | .classDecl _ decl => x.named .extended decl.parents ++ x.named .implemented decl.interfaces
  | .member (.traitUse traits) => x.named .mixedIn traits
  | .catchClause (.mk types _ _) => x.named .caught types
  | _ => []

end PlacedNode

/-- The names of a file, in the order of the text. -/
def occurrences (ss : List Stmt) : List Occurrence :=
  (placedNodes ss).flatMap PlacedNode.occurrences

end CrossReference
