import CrossReference.Catalog.Basic

/-!
# Ancestors and inherited members

The ancestors of a type in the order in which its members are looked up: for each type its traits,
then what it extends, then its interfaces, each followed by its own ancestors. A type that is met
again is passed over, and an undeclared one ends its branch.
-/

namespace CrossReference

/-- A supertype on the way up from a type. -/
structure Ancestor where
  name : String
  /-- The relation of the edge that led here. -/
  relation : Relation
  /-- How many edges lead here; a direct supertype has depth one. -/
  depth : Nat
deriving DecidableEq, Inhabited

/-- The ancestors of a type. -/
structure Ancestors where
  /-- The declared ancestors, closest first. -/
  chain : List Ancestor := []
  /-- Supertypes without a declaration. -/
  unresolved : List String := []
  /-- Whether the limit cut the list off. -/
  truncated : Bool := false
deriving DecidableEq, Inhabited

namespace Ancestors

/-- Whether something is missing from the list. -/
def isPartial (a : Ancestors) : Bool :=
  !a.unresolved.isEmpty || a.truncated

/-- Whether `name` is one of the ancestors. -/
def contains (a : Ancestors) (name : String) : Bool :=
  a.chain.any fun ancestor => Name.same ancestor.name name

/-- The names of the ancestors. -/
def names (a : Ancestors) : List String :=
  a.chain.map Ancestor.name

end Ancestors

namespace Catalog

/-- The direct supertypes of `name`, which stands at the given depth. -/
def parentsAt (c : Catalog) (name : String) (depth : Nat) : List Ancestor :=
  (c.graph.supertypes name).map fun e =>
    { name := e.parent, relation := e.relation, depth := depth + 1 }

theorem length_parentsAt (c : Catalog) (name : String) (depth : Nat) :
    (c.parentsAt name depth).length = (c.graph.edgesFrom (Name.key name)).length := by
  simp [parentsAt, Graph.length_supertypes]

/-- Goes up from the types still to visit, where the keys `seen` were met before and at most `room`
more ancestors are listed. -/
def climb (c : Catalog) (seen : List String) (room : Nat) : List Ancestor → Ancestors
  | [] => {}
  | next :: rest =>
    if Name.key next.name ∈ seen then
      c.climb seen room rest
    else
      match c.lookupType? next.name with
      | none =>
        let others := c.climb (Name.key next.name :: seen) room rest
        { others with unresolved := next.name :: others.unresolved }
      | some s =>
        match room with
        | 0 => { truncated := true }
        | room + 1 =>
          let others := c.climb (Name.key next.name :: seen) room
            (c.parentsAt next.name next.depth ++ rest)
          { others with chain := { next with name := s.qualifiedName } :: others.chain }
termination_by toVisit => c.graph.unseenEdges seen + toVisit.length
decreasing_by
  · simp
  · have := c.graph.unseenEdges_cons_le seen (Name.key next.name)
    simp only [List.length_cons]
    omega
  · have := c.graph.length_edgesFrom_add_unseenEdges_le ‹Name.key next.name ∉ seen›
    simp only [List.length_append, List.length_cons, length_parentsAt]
    omega

/-- The ancestors of the type `name`. -/
def ancestors (c : Catalog) (name : String) : Ancestors :=
  c.climb [Name.key name] c.ancestorLimit (c.parentsAt name 0)

/-- Whether `ancestor` is the type `name` or one of its ancestors. -/
def isSameOrAncestor (c : Catalog) (ancestor name : String) : Bool :=
  Name.same ancestor name || (c.ancestors name).contains ancestor

/-- The type that `name` extends. -/
def parentOf? (c : Catalog) (name : String) : Option String :=
  match (c.graph.supertypes name).find? (·.relation = .extending) with
  | none => none
  | some e =>
    match c.lookupType? e.parent with
    | some s => some s.qualifiedName
    | none => some e.parent

/-- The member that an access to the type `name` finds: its own, else the first inherited one. -/
def findMember? (c : Catalog) (name member : String) (kind : SymbolKind) : Option Symbol :=
  match c.lookup? kind (Name.member name member) with
  | some s => some s
  | none => (c.ancestors name).chain.findSome? fun a => c.lookup? kind (Name.member a.name member)

/-- The declared name of the type `name`, if one of its own handlers takes the access. -/
def handlerOf? (c : Catalog) (access : MemberAccess) (name : String) : Option String :=
  match c.lookupType? name with
  | some s => if s.handlers.handles access then some s.qualifiedName else none
  | none => none

/-- The type whose handler takes an access to an undeclared member of `name`: itself, else the first
ancestor that has one. -/
def catchAll? (c : Catalog) (name : String) (access : MemberAccess) : Option String :=
  match c.handlerOf? access name with
  | some owner => some owner
  | none => (c.ancestors name).chain.findSome? fun a => c.handlerOf? access a.name

end Catalog
end CrossReference
