import CrossReference.Catalog.Ancestry
import CrossReference.Query.Parser

/-!
# Queries

A query is bound to one kind of search. Binding looks the parsed names up among the declarations; a
short name without a declaration of its own stands for the only type with that last part, if there
is just one.
-/

namespace CrossReference

/-- What is searched for. -/
inductive Query where
  | type (name : String)
  | member (owner name : String) (kind : SymbolKind)
  | function (name : String)
  | constant (name : String)
deriving DecidableEq, Inhabited

namespace Query

/-- The only type with the last part `name`, where `name` has one part. -/
def uniqueType? (c : Catalog) (name : String) : Option String :=
  if Name.isQualified name then
    none
  else
    match c.typesNamed name with
    | [only] => some only.qualifiedName
    | _ => none

/-- The type that an owner in a query stands for. -/
def bindOwner (c : Catalog) (owner : String) : String :=
  match c.lookupType? owner with
  | some s => s.qualifiedName
  | none => (uniqueType? c owner).getD owner

/-- The kind of a member that the query leaves open: the first under which it is found. -/
def bindKind (c : Catalog) (owner name : String) : SymbolKind :=
  ([.method, .constant, .property].find? fun kind => (c.findMember? owner name kind).isSome).getD
    .method

/-- The query that a single name stands for: a type, else a function, else a constant. -/
def bindName (c : Catalog) (name : String) : Query :=
  match c.lookupType? name with
  | some s => .type s.qualifiedName
  | none =>
    match c.lookup? .function name with
    | some s => .function s.qualifiedName
    | none =>
      match c.lookup? .constant name with
      | some s => .constant s.qualifiedName
      | none => .type ((uniqueType? c name).getD name)

/-- Binds a parsed query to the declarations. -/
def bind (c : Catalog) : ParsedQuery → Query
  | .plain name => bindName c name
  | .function name => .function name
  | .member owner name kind =>
    .member (bindOwner c owner) name (kind.getD (bindKind c (bindOwner c owner) name))

/-- Reads and binds a query string. -/
def parse (c : Catalog) (raw : String) : Except QueryError Query :=
  (ParsedQuery.parse .unicode raw).map (bind c)

/-- The qualified name of what is searched for, or of the type that has the member. -/
def subject : Query → String
  | type name => name
  | member owner _ _ => owner
  | function name => name
  | constant name => name

/-- The last part of the subject. -/
def shortName (q : Query) : String :=
  Name.lastPart q.subject

/-- The member that is searched for. -/
def member? : Query → Option String
  | member _ name _ => some name
  | _ => none

/-- Whether the query asks for a member. -/
def isMember (q : Query) : Bool :=
  q.member?.isSome

/-- A query as a query string. -/
def render : Query → String
  | type name => name
  | constant name => name
  | function name => name ++ "()"
  | member owner name .property => Name.member owner ("$" ++ name)
  | member owner name _ => Name.member owner name

/-- Whether the query asks for a constructor. -/
def isConstructor : Query → Bool
  | member _ name .method => Name.isConstructor name
  | _ => false

end Query
end CrossReference
