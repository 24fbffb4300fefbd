import CrossReference.Source.Lines

/-!
# Context windows

The lines around a line of interest, clipped to the file.
-/

namespace CrossReference

/-- Consecutive lines of a file; their numbers count from one, ends included. -/
structure Window where
  firstLine : Nat
  lastLine : Nat
  lines : List String
deriving DecidableEq, Inhabited

namespace Window

/-- The lines at most `radius` away from `line`, which counts from zero. A line beyond the end
stands for the last one. -/
def around (lines : Lines) (text : String) (line radius : Nat) : Window :=
  let last := lines.count - 1
  let line := min line last
  let first := line - radius
  let final := min (line + radius) last
  { firstLine := first + 1
    lastLine := final + 1
    lines := (List.range' first (final + 1 - first)).map fun l => (lines.text? text l).getD "" }

end Window
end CrossReference
