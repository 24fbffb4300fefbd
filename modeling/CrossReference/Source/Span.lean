/-!
# Spans and positions

A span is a range of byte offsets in a text, a position a line and a column in it. Lines and columns
count from zero inside the library and from one where they are shown.
-/

namespace CrossReference

/-- The bytes from `start` up to `stop`. A span may lie beyond the end of its text. -/
structure Span where
  start : Nat
  stop : Nat
deriving DecidableEq, Inhabited

/-- A line and a column, in bytes, both counted from zero. -/
structure Position where
  line : Nat
  column : Nat
deriving DecidableEq, Inhabited

namespace Position

/-- The line as shown to users. -/
def shownLine (p : Position) : Nat :=
  p.line + 1

/-- The column as shown to users. -/
def shownColumn (p : Position) : Nat :=
  p.column + 1

/-- A position as shown to users. -/
def render (p : Position) : String :=
  s!"{p.shownLine}:{p.shownColumn}"

end Position
end CrossReference
