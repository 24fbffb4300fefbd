import CrossReference.Candidate
import CrossReference.Diagnostic.Basic
import CrossReference.Source.File
import CrossReference.Usage.Ranking

/-!
# Snapshots and searches

A snapshot is a fixed view of the indexed files, with a linked catalog. A search in it binds a query
string, chooses candidate files, and reports the ranked usages with a summary of what went wrong.
-/

namespace CrossReference

/-- Why there is no result at all. -/
inductive SearchError where
  | noFiles
  | invalidSettings (reason : SettingsError)
  | cancelled
deriving DecidableEq, Inhabited

/-- What a user is told when there is no result. -/
def SearchError.message : SearchError → String
  | noFiles => "no files have been indexed"
  | invalidSettings reason => s!"invalid search configuration: {reason.message}"
  | cancelled => "search was cancelled"

/-- Ranked usages, and what went wrong on the way. -/
structure SearchResult where
  usages : List ScoredUsage := []
  diagnostics : List Diagnostic := []
deriving DecidableEq, Inhabited

/-- The usages of one tier. -/
def SearchResult.withConfidence (r : SearchResult) (tier : Confidence) : List ScoredUsage :=
  r.usages.filter (·.confidence = tier)

/-- A fixed view of the indexed files. -/
structure Snapshot where
  files : OrderedMap FileId SourceFile
  catalog : Catalog
  settings : Settings

namespace Snapshot

/-- Reads and binds a query string. -/
def parseQuery (s : Snapshot) (raw : String) : Except QueryError Query :=
  Query.parse s.catalog raw

/-- What went wrong when a file was parsed. -/
def parseProblems (f : SourceFile) : List Diagnostic :=
  if f.isParsed then
    []
  else if f.errors.isEmpty then
    [.parseFailure f.path none "no syntax tree was produced"]
  else
    let lines := Lines.ofText f.text
    f.errors.map fun e =>
      .parseFailure f.path (e.span.map fun span => (lines.position span.start).shownLine) e.message

/-- A refused supertype clause as a problem of its file. -/
def rejectionProblem (s : Snapshot) (r : Rejection) : Diagnostic :=
  let path := ((s.files.find? r.file).map SourceFile.path).getD r.file.render
  .relationshipCycle path (r.line + 1) r.reason.message

/-- What went wrong when the files were indexed. -/
def indexProblems (s : Snapshot) : List Diagnostic :=
  s.files.values.flatMap parseProblems ++ s.catalog.rejected.map s.rejectionProblem

/-- Whether the ancestors of the type of a member query are all known. -/
def ancestorProblems (s : Snapshot) : Query → List Diagnostic
  | .member owner _ _ =>
    let ancestors := s.catalog.ancestors owner
    if ancestors.isPartial && s.catalog.hasType owner then
      [.partialAncestors owner ancestors.unresolved ancestors.truncated]
    else
      []
  | _ => []

/-- A usage as it is reported, with its confidence and the lines around it. -/
def score (s : Snapshot) (f : SourceFile) (lines : Lines) (found : Context × Site) : ScoredUsage :=
  let usage := Usage.locate f.path f.text lines found.2
  { path := usage.path
    line := usage.position.shownLine
    column := usage.position.shownColumn
    span := found.2.span
    snippet := usage.snippet
    kind := found.2.kind
    confidence := found.2.confidence found.1
    context := .around lines f.text usage.position.line s.settings.contextRadius }

/-- The problem of a site whose name was not resolved. -/
def unresolvedProblem? (f : SourceFile) (lines : Lines) (found : Context × Site) :
    Option Diagnostic :=
  match found.2.evidence.resolution with
  | .unresolved name =>
    some (.unresolvedName f.path (lines.position found.2.span.start).shownLine name)
  | _ => none

/-- The usages in a file and the problems with them. Usages beyond the limit are dropped. -/
def searchFile (s : Snapshot) (query : Query) (f : SourceFile) : SearchResult :=
  match f.tree with
  | none => {}
  | some stmts =>
    let size := f.text.utf8ByteSize
    let limit := s.settings.maxUsagesPerFile
    if s.settings.maxFileBytes < size then
      { diagnostics := [.oversizedFile f.path size s.settings.maxFileBytes] }
    else
      let lines := Lines.ofText f.text
      let found := (Search.ofQuery s.catalog s.settings query).sites stmts
      let kept := found.take limit
      { usages := kept.map (s.score f lines)
        diagnostics := kept.filterMap (unresolvedProblem? f lines) ++
          if limit < found.length then [.truncatedResults f.path limit] else [] }

/-- The results of the candidate files, in order. -/
def searchCandidates (s : Snapshot) (query : Query) : List SearchResult :=
  let files := s.files.values
  (candidates s.settings query (files.map SourceFile.text)).filterMap fun i =>
    files[i]?.map (s.searchFile query)

/-- Searches for a bound query; `problems` are known already. -/
def searchQuery (s : Snapshot) (query : Query) (problems : List Diagnostic) : SearchResult :=
  let results := s.searchCandidates query
  { usages := ScoredUsage.rank (results.flatMap SearchResult.usages)
    diagnostics := Diagnostic.summary
      (problems ++ s.ancestorProblems query ++ results.flatMap SearchResult.diagnostics) }

/-- Finds the usages of what a query string asks for. A malformed query has an empty result with a
warning. A cancelled search has no result, unless the query is malformed. -/
def find (s : Snapshot) (raw : String) (cancelled : Bool) : Except SearchError SearchResult :=
  match s.settings.problem? with
  | some reason => .error (.invalidSettings reason)
  | none =>
    if s.files.isEmpty then
      .error .noFiles
    else
      match s.parseQuery raw with
      | .error e =>
        .ok
          { diagnostics := Diagnostic.summary
              (s.indexProblems ++ [.malformedQuery raw e.message]) }
      | .ok query =>
        if cancelled then .error .cancelled else .ok (s.searchQuery query s.indexProblems)

/-- Finds the usages of what a query string asks for. -/
def findUsages (s : Snapshot) (raw : String) : Except SearchError SearchResult :=
  s.find raw false

end Snapshot
end CrossReference
