import CrossReference.Name
import CrossReference.Source.FileId

/-!
# Supertype edges

An edge leads from a type to one of its direct supertypes. An edge that would make a type its own
supertype is refused, and the error says why.
-/

namespace CrossReference

/-- How a type is tied to a direct supertype. -/
inductive Relation where
  | extending
  | implementing
  | mixingIn
deriving DecidableEq, Inhabited

/-- Every relation. -/
def Relation.all : List Relation :=
  [extending, implementing, mixingIn]

/-- The word for a relation. -/
def Relation.render : Relation → String
  | extending => "extends"
  | implementing => "implements"
  | mixingIn => "uses"

/-- A direct supertype of a type. -/
structure Edge where
  child : String
  parent : String
  relation : Relation
  /-- The file that declares the edge; `none` if it was given directly. -/
  origin : Option FileId
deriving DecidableEq, Inhabited

/-- Why an edge is refused. -/
inductive EdgeError where
  | selfReference (child : String) (relation : Relation)
  | cycle (child parent : String) (relation : Relation)
deriving DecidableEq, Inhabited

/-- What a user is told about a refused edge. -/
def EdgeError.message : EdgeError → String
  | selfReference child relation => s!"`{child}` cannot {relation.render} itself"
  | cycle child parent relation =>
    s!"`{child}` {relation.render} `{parent}` would create an inheritance cycle"

end CrossReference
