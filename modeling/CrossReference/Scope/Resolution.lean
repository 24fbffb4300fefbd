import CrossReference.Catalog.Ancestry
import CrossReference.Scope.Context

/-!
# Name resolution

From a name as written at a place to the qualified name that it stands for. Absolute names and names
that an import decides are definite, whatever is declared. Any other name is searched for in the
current namespace and then in the global one; functions and constants may also be builtins.
-/

namespace CrossReference

/-- The global functions, in lower case, and constants of the language itself. -/
structure Builtins where
  functions : List String := []
  constants : List String := []
deriving DecidableEq, Inhabited

/-- What a name stands for. -/
inductive Resolved where
  | qualified (name : String)
  | builtin (name : String)
  /-- Nothing was found; the best candidate is kept. -/
  | unresolved (candidate : String)
deriving DecidableEq, Inhabited

namespace Resolved

/-- The resolved name, or the best candidate. -/
def name : Resolved → String
  | qualified name => name
  | builtin name => name
  | unresolved candidate => candidate

/-- Whether something was found. -/
def isResolved : Resolved → Bool
  | unresolved _ => false
  | _ => true

/-- Whether the name denotes `target`. -/
def denotes (r : Resolved) (target : String) (kind : NameKind) : Bool :=
  kind.sameName r.name target

end Resolved

/-- How a name is to be read at a place. -/
inductive Reading where
  /-- The name is decided without a look at the declarations. -/
  | definite (name : String)
  /-- The first of these that is declared counts. -/
  | search (candidates : Candidates)
deriving DecidableEq, Inhabited

namespace Reading

/-- The reading of a name that no separator begins and no alias equals, but whose first part is the
word `namespace` or a class alias. -/
def ofHead? (ctx : Context) (raw : String) : Option Reading :=
  match Name.splitHead? raw with
  | none => none
  | some (head, rest) =>
    if Text.sameFolded head "namespace" then
      some (definite (ctx.qualify rest))
    else
      (ctx.imports.target? .classLike head).map fun target => definite (Name.join target rest)

/-- How `raw` is to be read. -/
def ofName (ctx : Context) (kind : NameKind) (raw : String) : Reading :=
  match Text.stripStart? (String.ofList [Name.separator]) raw with
  | some absolute => definite absolute
  | none =>
    match ctx.imports.target? kind raw with
    | some target => definite target
    | none =>
      match ofHead? ctx raw with
      | some reading => reading
      | none =>
        match ctx.currentNamespace with
        | some _ => search [ctx.qualify raw, raw]
        | none => search [raw]

/-- The names that may be meant, best first. -/
def candidates : Reading → Candidates
  | definite name => [name]
  | search candidates => candidates

end Reading

/-- The names that `raw` may stand for, for references that are linked later. -/
def Context.candidates (ctx : Context) (kind : NameKind) (raw : String) : Candidates :=
  (Reading.ofName ctx kind raw).candidates

/-- What names are resolved against. -/
structure Resolver where
  catalog : Catalog
  builtins : Builtins := {}

namespace Resolver

/-- Whether a name of the given family is declared. -/
def isDeclared (r : Resolver) (kind : NameKind) (name : String) : Bool :=
  match kind with
  | .classLike => r.catalog.hasType name
  | .function => (r.catalog.lookup? .function name).isSome
  | .constant => (r.catalog.lookup? .constant name).isSome

/-- Whether the unqualified name `raw` is a builtin. -/
def isBuiltin (r : Resolver) (kind : NameKind) (raw : String) : Bool :=
  !Name.isQualified raw &&
    match kind with
    | .classLike => false
    | .function => r.builtins.functions.contains (Text.foldCase raw)
    | .constant => r.builtins.constants.contains raw

/-- The enclosing type. -/
def selfType? (_ : Resolver) (ctx : Context) : Option String :=
  ctx.currentType?

/-- The type that the enclosing type extends. -/
def parentType? (r : Resolver) (ctx : Context) : Option String :=
  ctx.currentType?.bind r.catalog.parentOf?

/-- What a name that searches its candidates stands for. -/
def searchFor (r : Resolver) (kind : NameKind) (raw : String) (candidates : Candidates) :
    Resolved :=
  match candidates.find? (r.isDeclared kind) with
  | some found => .qualified found
  | none =>
    if r.isBuiltin kind raw then .builtin raw
    else .unresolved (candidates.headD raw)

/-- What a keyword that stands for a type of the surroundings stands for; `none` if `raw` is no such
keyword. -/
def resolveKeyword? (r : Resolver) (ctx : Context) (raw : String) : Option Resolved :=
  let found (type : Option String) : Resolved :=
    match type with
    | some name => .qualified name
    | none => .unresolved raw
  if Name.isSelfKeyword raw then some (found (r.selfType? ctx))
  else if Name.isParentKeyword raw then some (found (r.parentType? ctx))
  else none

/-- What a name without a keyword's meaning stands for. -/
def resolveReading (r : Resolver) (ctx : Context) (kind : NameKind) (raw : String) : Resolved :=
  match Reading.ofName ctx kind raw with
  | .definite name => .qualified name
  | .search candidates => r.searchFor kind raw candidates

/-- What `raw` stands for at a place. -/
def resolve (r : Resolver) (ctx : Context) (kind : NameKind) (raw : String) : Resolved :=
  if Name.bare raw = "" then
    .unresolved raw
  else
    match kind with
    | .classLike => (r.resolveKeyword? ctx raw).getD (r.resolveReading ctx kind raw)
    | .function | .constant => r.resolveReading ctx kind raw

end Resolver
end CrossReference
