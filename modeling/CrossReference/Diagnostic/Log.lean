import CrossReference.Diagnostic.Basic

/-!
# The log of diagnostics

Problems as they are noted, in order. A log is read without a change, or taken, which leaves it
empty.
-/

namespace CrossReference

/-- The problems that were noted so far. -/
structure DiagnosticLog where
  /-- The problems in the order in which they were noted. -/
  entries : List Diagnostic := []
deriving DecidableEq, Inhabited

namespace DiagnosticLog

instance : EmptyCollection DiagnosticLog := ⟨{}⟩

/-- Notes a problem. -/
def add (log : DiagnosticLog) (d : Diagnostic) : DiagnosticLog where
  entries := log.entries ++ [d]

/-- Notes several problems. -/
def addAll (log : DiagnosticLog) (ds : List Diagnostic) : DiagnosticLog where
  entries := log.entries ++ ds

/-- The number of problems. -/
def size (log : DiagnosticLog) : Nat :=
  log.entries.length

/-- The number of problems of one severity. -/
def count (log : DiagnosticLog) (severity : Severity) : Nat :=
  log.entries.countP (·.severity = severity)

/-- Whether a problem is an error. -/
def hasErrors (log : DiagnosticLog) : Bool :=
  log.entries.any (·.severity = .error)

/-- The problems of one file. -/
def ofFile (log : DiagnosticLog) (path : String) : List Diagnostic :=
  log.entries.filter (·.file = some path)

/-- Takes the problems in the order in which they were noted. -/
def take (log : DiagnosticLog) : List Diagnostic × DiagnosticLog :=
  (log.entries, ∅)

/-- Takes the summary of the problems. -/
def takeSorted (log : DiagnosticLog) : List Diagnostic × DiagnosticLog :=
  (Diagnostic.summary log.entries, ∅)

@[simp] theorem entries_empty : (∅ : DiagnosticLog).entries = [] := rfl

@[simp] theorem entries_add (log : DiagnosticLog) (d : Diagnostic) :
    (log.add d).entries = log.entries ++ [d] := rfl

@[simp] theorem entries_addAll (log : DiagnosticLog) (ds : List Diagnostic) :
    (log.addAll ds).entries = log.entries ++ ds := rfl

end DiagnosticLog
end CrossReference
