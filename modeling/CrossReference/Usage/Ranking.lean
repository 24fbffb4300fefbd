import CrossReference.Source.Window
import CrossReference.Usage.Confidence

/-!
# Ranked usages

Usages with their confidence, the best first: by confidence, then by path, line, column and kind. A
site that is reported twice under one kind stays once, with its best confidence.
-/

namespace CrossReference

/-- A usage as it is reported. -/
structure ScoredUsage where
  path : String
  /-- Counted from one. -/
  line : Nat
  /-- Counted from one, in bytes. -/
  column : Nat
  span : Span
  /-- The whole line. -/
  snippet : String
  kind : UsageKind
  confidence : Confidence
  context : Window
deriving DecidableEq, Inhabited

namespace ScoredUsage

/-- Compares in the order of the report. -/
def compare (a b : ScoredUsage) : Ordering :=
  (Ord.compare a.confidence.rank b.confidence.rank).then <|
    (Ord.compare a.path b.path).then <|
      (Ord.compare a.line b.line).then <|
        (Ord.compare a.column b.column).then <|
          Ord.compare a.kind.order b.kind.order

/-- What two reports of one site have in common. -/
def identity (u : ScoredUsage) : String × Span × UsageKind :=
  (u.path, u.span, u.kind)

/-- The usages whose identity is not in `seen` and did not come before. -/
def firstOfEach (seen : List (String × Span × UsageKind)) : List ScoredUsage → List ScoredUsage
  | [] => []
  | u :: us =>
    if u.identity ∈ seen then
      firstOfEach seen us
    else
      u :: firstOfEach (u.identity :: seen) us

/-- The usages in the order of the report, each site once under each kind. -/
def rank (usages : List ScoredUsage) : List ScoredUsage :=
  firstOfEach [] (usages.mergeSort fun a b => (compare a b).isLE)

end ScoredUsage
end CrossReference
