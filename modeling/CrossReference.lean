import CrossReference.Diagnostic.Log
import CrossReference.Workspace.Basic
import CrossReference.Proofs.Hierarchy.Acyclic
import CrossReference.Proofs.Catalog.Ownership
import CrossReference.Proofs.Workspace.Calls
import CrossReference.Proofs.Workspace.Declared
import CrossReference.Proofs.Tree.Mentions
import CrossReference.Proofs.Usage.Invariant
import CrossReference.Proofs.Usage.Vocabulary
import CrossReference.Proofs.Candidate.Patterns
import CrossReference.Proofs.Catalog.Ancestry
import CrossReference.Proofs.Candidate.Reached
import CrossReference.Proofs.Candidate.Types
import CrossReference.Proofs.Candidate.Members
import CrossReference.Proofs.Usage.Attribution
import CrossReference.Proofs.Workspace.Batch
import CrossReference.Proofs.Catalog.Agreement
import CrossReference.Proofs.Report
import CrossReference.Proofs.Usage.Agreement
import CrossReference.Proofs.Catalog.Linking
import CrossReference.Proofs.Workspace.Contents
import CrossReference.Proofs.Workspace.Reordering
import CrossReference.Proofs.Workspace.Consistency
import CrossReference.Proofs.Workspace.Sharing
import CrossReference.Proofs.Workspace.Relinking
import CrossReference.Proofs.Usage.Occurrences
import CrossReference.Proofs.Usage.ClassNames
import CrossReference.Proofs.Tree.Nodes
import CrossReference.Proofs.Tree.Scopes
import CrossReference.Proofs.Usage.Landmarks
import CrossReference.Proofs.Declaration.Headers
import CrossReference.Proofs.Declaration.Identity
import CrossReference.Proofs.Declaration.ClauseNames
import CrossReference.Proofs.Usage.FreeNames
import CrossReference.Proofs.Catalog.Lookup
import CrossReference.Proofs.Catalog.DirectEdges
import CrossReference.Proofs.Workspace.Clauses
import CrossReference.Proofs.Usage.InheritedCalls
import CrossReference.Proofs.Text.Case
import CrossReference.Proofs.Catalog.Members
import CrossReference.Proofs.Usage.Respelling
import CrossReference.Proofs.Query.Case
import CrossReference.Proofs.Workspace.Case
import CrossReference.Proofs.Workspace.Filing
import CrossReference.Proofs.Workspace.Unparsed
import CrossReference.Proofs.Catalog.History
import CrossReference.Proofs.Hierarchy.Insertion
import CrossReference.Proofs.Catalog.Traversal
import CrossReference.Proofs.Catalog.Inheritance
import CrossReference.Proofs.Catalog.Accounting
import CrossReference.Proofs.Catalog.Staleness
import CrossReference.Proofs.Catalog.Limit
import CrossReference.Proofs.Workspace.Deferred
import CrossReference.Proofs.Text.Assembly
import CrossReference.Proofs.Scope.Decided
import CrossReference.Proofs.Query.Grammar
import CrossReference.Proofs.Scope.Case
import CrossReference.Proofs.Query.Rebinding
import CrossReference.Proofs.Usage.Ranking
import CrossReference.Proofs.Usage.Stages
import CrossReference.Proofs.Usage.States
import CrossReference.Proofs.Trace.Hops
import CrossReference.Proofs.Trace.Strings
import CrossReference.Proofs.Usage.FunctionScopes
import CrossReference.Proofs.Source.Positions
import CrossReference.Proofs.Workspace.Placement
import CrossReference.Proofs.Workspace.UsageLimit
import CrossReference.Proofs.Diagnostic.Repetition
import CrossReference.Proofs.Tree.TypeNames
import CrossReference.Proofs.Catalog.Keys
import CrossReference.Proofs.Declaration.Provenance
import CrossReference.Proofs.Catalog.Depth
