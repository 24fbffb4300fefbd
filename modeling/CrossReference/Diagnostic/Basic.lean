/-!
# Diagnostics

What went wrong while files were indexed or searched. A single bad file or name never stops a
search; it becomes an entry of the summary that accompanies the result.
-/

namespace CrossReference

/-- How bad a problem is. -/
inductive Severity where
  | error
  | warning
  | info
deriving DecidableEq, Inhabited

/-- Every severity. -/
def Severity.all : List Severity :=
  [error, warning, info]

/-- The word for a severity. -/
def Severity.render : Severity → String
  | error => "error"
  | warning => "warning"
  | info => "info"

/-- What a problem is about. -/
inductive Category where
  | parse
  | unresolved
  | cycle
  | resource
  | query
deriving DecidableEq, Inhabited

/-- Every category. -/
def Category.all : List Category :=
  [parse, unresolved, cycle, resource, query]

/-- The word for a category. -/
def Category.render : Category → String
  | parse => "parse"
  | unresolved => "unresolved"
  | cycle => "cycle"
  | resource => "resource"
  | query => "query"

/-- One problem. -/
structure Diagnostic where
  category : Category
  severity : Severity
  /-- The path of the file; a problem of the query has none. -/
  file : Option String := none
  /-- Counted from one. -/
  line : Option Nat := none
  snippet : Option String := none
  code : String
  message : String
deriving DecidableEq, Inhabited

namespace Diagnostic

/-- A problem as a line of text. -/
def render (d : Diagnostic) : String :=
  let place :=
    match d.file, d.line with
    | some file, some line => s!" {file}:{line}"
    | some file, none => s!" {file}"
    | none, _ => ""
  s!"{d.severity.render}[{d.code}]{place}: {d.message}"

/-- A file has no tree. -/
def parseFailure (path : String) (line : Option Nat) (message : String) : Diagnostic where
  category := .parse
  severity := .error
  file := some path
  line := line
  code := "E0001"
  message := s!"could not parse file: {message}"

/-- A supertype clause was refused. -/
def relationshipCycle (path : String) (line : Nat) (message : String) : Diagnostic where
  category := .cycle
  severity := .error
  file := some path
  line := some line
  code := "E0002"
  message := message

/-- A name at a reported site was not resolved. -/
def unresolvedName (path : String) (line : Nat) (name : String) : Diagnostic where
  category := .unresolved
  severity := .warning
  file := some path
  line := some line
  code := "W0001"
  message := s!"unresolved name '{name}'"

/-- A file has more usages than are reported. -/
def truncatedResults (path : String) (limit : Nat) : Diagnostic where
  category := .resource
  severity := .warning
  file := some path
  code := "W0002"
  message := s!"more than {limit} usages in file; remaining sites dropped"

/-- A file is too large to be searched. -/
def oversizedFile (path : String) (size limit : Nat) : Diagnostic where
  category := .resource
  severity := .warning
  file := some path
  code := "W0003"
  message := s!"file is {size} bytes, above the {limit} byte limit; skipped"

/-- The query string is unusable. -/
def malformedQuery (query reason : String) : Diagnostic where
  category := .query
  severity := .warning
  code := "W0004"
  message := s!"malformed query '{query}': {reason}"

/-- Not all ancestors of a type are known. -/
def partialAncestors (type : String) (unresolved : List String) (truncated : Bool) : Diagnostic :=
  let missing :=
    if unresolved.isEmpty then "" else "; undeclared: " ++ String.intercalate ", " unresolved
  let cut := if truncated then "; depth limit reached" else ""
  { category := .resource
    severity := .warning
    code := "W0005"
    message := s!"ancestors of '{type}' are incomplete{missing}{cut}" }

/-- Compares two optional values; a missing one comes first. -/
def compareOption {α : Type} (cmp : α → α → Ordering) : Option α → Option α → Ordering
  | none, none => .eq
  | none, some _ => .lt
  | some _, none => .gt
  | some a, some b => cmp a b

/-- Compares in the order of the summary: by file, line, code and message. -/
def compare (a b : Diagnostic) : Ordering :=
  (compareOption Ord.compare a.file b.file).then <|
    (compareOption Ord.compare a.line b.line).then <|
      (Ord.compare a.code b.code).then <|
        Ord.compare a.message b.message

/-- A list in which each run of equal neighbours is shrunk to one. -/
def mergeNeighbours : List Diagnostic → List Diagnostic
  | [] => []
  | d :: ds =>
    match mergeNeighbours ds with
    | [] => [d]
    | e :: es => if d = e then e :: es else d :: e :: es

/-- The summary of a list of problems: sorted, and without repetitions next to each other. -/
def summary (ds : List Diagnostic) : List Diagnostic :=
  mergeNeighbours (ds.mergeSort fun a b => (compare a b).isLE)

end Diagnostic
end CrossReference
