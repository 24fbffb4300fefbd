import CrossReference.Hierarchy.Graph
import CrossReference.Symbol.Basic

/-!
# The catalog of declarations

All symbols that the indexed files declare, and the inheritance graph between the types among them.
A symbol declared again replaces the earlier one, whichever file made it; removing a file removes
the symbols that are its own.

The supertype clauses of the files are kept as they are written. They become edges when the catalog
is linked, since only then it is known which names are declared.
-/

namespace CrossReference

/-- A supertype clause of a declaration: the child, and what its parent's name may stand for. -/
structure Clause where
  child : String
  parent : Candidates
  relation : Relation
  /-- The line of the clause, counted from zero. -/
  line : Nat := 0
deriving DecidableEq, Inhabited

/-- A clause that did not become an edge. -/
structure Rejection where
  file : FileId
  line : Nat
  reason : EdgeError
deriving DecidableEq, Inhabited

/-- The declarations of all indexed files. -/
structure Catalog where
  symbols : OrderedMap SymbolKey Symbol := ∅
  /-- The keys of the symbols that each file declares. -/
  declaredBy : OrderedMap FileId (List SymbolKey) := ∅
  graph : Graph := ∅
  /-- The supertype clauses of each file. -/
  clauses : OrderedMap FileId (List Clause) := ∅
  /-- Whether the clauses changed since the graph was linked. -/
  stale : Bool := false
  /-- The clauses that the last linking refused. -/
  rejected : List Rejection := []
  /-- How many ancestors of a type are listed at most. -/
  ancestorLimit : Nat := 256

namespace Catalog

instance : EmptyCollection Catalog := ⟨{}⟩

instance : Inhabited Catalog := ⟨∅⟩

/-- Sets how many ancestors are listed; at least one is. -/
def setAncestorLimit (c : Catalog) (limit : Nat) : Catalog :=
  { c with ancestorLimit := max limit 1 }

/-- The number of symbols. -/
def size (c : Catalog) : Nat :=
  c.symbols.size

/-- The symbol of one kind with the given name. -/
def lookup? (c : Catalog) (kind : SymbolKind) (name : String) : Option Symbol :=
  c.symbols.find? (.ofName kind name)

/-- The type with the given name: a class, else an interface, else a trait, else an enum. -/
def lookupType? (c : Catalog) (name : String) : Option Symbol :=
  Tree.ClassKind.all.findSome? fun kind => c.lookup? (.type kind) name

/-- Whether a type of that name is declared. -/
def hasType (c : Catalog) (name : String) : Bool :=
  (c.lookupType? name).isSome

/-- The types whose last part is `short`, up to case. -/
def typesNamed (c : Catalog) (short : String) : List Symbol :=
  c.symbols.values.filter fun s => s.kind.isType && Text.sameFolded s.name short

/-- Takes `key` off the list of a file, if the symbol there came from another file than `file`. -/
def disown (owners : OrderedMap FileId (List SymbolKey)) (key : SymbolKey) (file : FileId) :
    Option Symbol → OrderedMap FileId (List SymbolKey)
  | none => owners
  | some previous =>
    if previous.file = file then
      owners
    else
      match owners.find? previous.file with
      | none => owners
      | some keys => owners.insert previous.file (keys.filter (· ≠ key))

/-- Puts `key` on the list of `file`. -/
def own (owners : OrderedMap FileId (List SymbolKey)) (key : SymbolKey) (file : FileId) :
    OrderedMap FileId (List SymbolKey) :=
  let keys := (owners.find? file).getD []
  owners.insert file (if key ∈ keys then keys else keys ++ [key])

/-- Adds a symbol, in the place of the one with its key. -/
def declare (c : Catalog) (s : Symbol) : Catalog :=
  { c with
    symbols := c.symbols.insert s.key s
    declaredBy := own (disown c.declaredBy s.key s.file (c.symbols.find? s.key)) s.key s.file }

/-- Removes a symbol if it came from `file`. -/
def eraseOwn (file : FileId) (symbols : OrderedMap SymbolKey Symbol) (key : SymbolKey) :
    OrderedMap SymbolKey Symbol :=
  match symbols.find? key with
  | some s => if s.file = file then symbols.erase key else symbols
  | none => symbols

/-- Removes what a file declared. -/
def removeFile (c : Catalog) (file : FileId) : Catalog :=
  { c with
    symbols := ((c.declaredBy.find? file).getD []).foldl (eraseOwn file) c.symbols
    declaredBy := c.declaredBy.erase file
    clauses := c.clauses.erase file
    stale := c.stale || c.clauses.contains file }

/-- The symbols that a file declares. -/
def symbolsIn (c : Catalog) (file : FileId) : List Symbol :=
  ((c.declaredBy.find? file).getD []).filterMap c.symbols.find?

/-- What a list of candidates stands for: the declared name of the first type that exists, else the
first candidate. -/
def resolve? (c : Catalog) (candidates : Candidates) : Option String :=
  match candidates.findSome? c.lookupType? with
  | some s => some s.qualifiedName
  | none => candidates.head?

/-- Replaces the supertype clauses of a file. -/
def setClauses (c : Catalog) (file : FileId) (clauses : List Clause) : Catalog :=
  { c with clauses := c.clauses.insert file clauses, stale := true }

/-- Adds an edge directly, and tells whether it was accepted. -/
def relate (c : Catalog) (child parent : String) (relation : Relation) :
    Except EdgeError Unit × Catalog :=
  let inserted := c.graph.insert child parent relation none
  (inserted.1, { c with graph := inserted.2 })

/-- Turns one clause of a file into an edge, or rejects it. -/
def linkClause (c : Catalog) (file : FileId) (clause : Clause) : Catalog :=
  match c.resolve? clause.parent with
  | none => c
  | some parent =>
    match c.graph.insert clause.child parent clause.relation (some file) with
    | (.ok _, graph) => { c with graph := graph }
    | (.error e, graph) =>
      { c with
        graph := graph
        rejected := c.rejected ++ [{ file := file, line := clause.line, reason := e }] }

/-- All supertype clauses with their files, in order. -/
def allClauses (c : Catalog) : List (FileId × Clause) :=
  c.clauses.entries.flatMap fun (file, clauses) => clauses.map fun clause => (file, clause)

/-- The catalog with only the edges that were given directly. -/
def unlinked (c : Catalog) : Catalog :=
  { c with
    graph := .ofEdges (c.graph.edges.toList.filter (·.origin.isNone))
    stale := false
    rejected := [] }

/-- Makes the graph agree with the clauses. Edges that were given directly stay. -/
def link (c : Catalog) : Catalog :=
  if c.stale then
    c.allClauses.foldl (fun c (file, clause) => c.linkClause file clause) c.unlinked
  else
    c

end Catalog
end CrossReference
