import CrossReference.Scope.Resolution
import CrossReference.Trace.Locals

/-!
# Sites and their evidence

A site is a place in a file that refers, or may refer, to what is searched for. Its evidence tells
how the names there were resolved and how the values there are known.
-/

namespace CrossReference

/-- The syntactic kinds of sites. -/
inductive UsageKind where
  | instantiation
  | staticMemberAccess
  | instanceMemberAccess
  | typePosition
  | inheritanceClause
  | constantAccess
  | dynamicCall
  | functionCall
  | importClause
deriving DecidableEq, Inhabited

namespace UsageKind

/-- The place of a kind among its equals in a ranking. -/
def order : UsageKind → Nat
  | instantiation => 0
  | staticMemberAccess => 1
  | instanceMemberAccess => 2
  | typePosition => 3
  | inheritanceClause => 4
  | constantAccess => 5
  | dynamicCall => 6
  | functionCall => 7
  | importClause => 8

/-- Every kind, in that order. -/
def all : List UsageKind :=
  [instantiation, staticMemberAccess, instanceMemberAccess, typePosition, inheritanceClause,
   constantAccess, dynamicCall, functionCall, importClause]

/-- The word for a kind. -/
def render : UsageKind → String
  | instantiation => "instantiation"
  | staticMemberAccess => "static-member-access"
  | instanceMemberAccess => "instance-member-access"
  | typePosition => "type-position"
  | inheritanceClause => "inheritance-clause"
  | constantAccess => "constant-access"
  | dynamicCall => "dynamic-call"
  | functionCall => "function-call"
  | importClause => "import"

end UsageKind

/-- How the name at a site was resolved. -/
inductive Resolution where
  | resolved
  | builtin
  | unresolved (candidate : String)
deriving DecidableEq, Inhabited

/-- How a name was resolved, without the name itself. -/
def Resolved.resolution : Resolved → Resolution
  | qualified _ => .resolved
  | builtin _ => .builtin
  | unresolved candidate => .unresolved candidate

/-- What a member at a site was matched with. -/
structure MemberEvidence where
  name : String
  access : MemberAccess
  /-- Whether the member is declared by the receiver's type or an ancestor. -/
  declared : Bool
  /-- The type whose handler takes the access, if the member is undeclared. -/
  catchAll : Option String := none
deriving DecidableEq, Inhabited

/-- What is known about a site besides its kind. -/
structure Evidence where
  resolution : Resolution := .resolved
  /-- How the type of the receiver is known. -/
  receiver : Option Origin := none
  receiverType : Option String := none
  /-- How a string or variable that names the class or member is known. -/
  mediator : Option Origin := none
  member : Option MemberEvidence := none
  /-- Whether a function whose arguments name members leads here. -/
  reflective : Bool := false
  nullsafe : Bool := false
deriving DecidableEq, Inhabited

/-- A place that refers to what is searched for. -/
structure Site where
  kind : UsageKind
  /-- The span of the name, or of the expression that stands for it. -/
  span : Span
  evidence : Evidence := {}
deriving DecidableEq, Inhabited

end CrossReference
