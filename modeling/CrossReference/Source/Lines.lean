import CrossReference.Source.Span
import CrossReference.Text.Cut
import CrossReference.Text.Slice

/-!
# Lines of a text

The offsets at which the lines of a text start, and what follows from them: the position of an
offset, and the span and the text of a line. A line ends after its newline; a newline at the end of
the text opens one more, empty line, so there is always a line.
-/

namespace CrossReference

/-- Where the lines of a text start. -/
structure Lines where
  /-- Offsets of the first byte of each line. -/
  starts : List Nat
  /-- Length of the text in bytes. -/
  size : Nat
deriving DecidableEq, Inhabited

namespace Lines

/-- The offsets that follow a newline, where the characters begin at `offset`. -/
def startsAfter : Nat → List Char → List Nat
  | _, [] => []
  | offset, c :: cs =>
    let next := offset + c.utf8Size
    if c = '\n' then next :: startsAfter next cs else startsAfter next cs

/-- The lines of `text`. -/
def ofText (text : String) : Lines where
  starts := 0 :: startsAfter 0 text.toList
  size := text.utf8ByteSize

/-- The number of lines. -/
def count (lines : Lines) : Nat :=
  lines.starts.length

/-- The position of an offset; an offset beyond the text counts as its end. -/
def position (lines : Lines) (offset : Nat) : Position :=
  let offset := min offset lines.size
  let line := (lines.starts.takeWhile (· ≤ offset)).length - 1
  { line := line, column := offset - lines.starts.getD line 0 }

/-- Whether a character belongs to a line's terminator. -/
def isTerminator (c : Char) : Bool :=
  c == '\n' || c == '\r'

/-- The text of line `line` of `text` without its terminator, if its ends stand between characters
of `text`. -/
def text? (lines : Lines) (text : String) (line : Nat) : Option String :=
  match lines.starts[line]? with
  | none => none
  | some start =>
    let stop := lines.starts.getD (line + 1) lines.size
    (Text.slice? text start stop).map (Text.trimEnd isTerminator)

/-- The span of line `line` of `text` without its terminator. -/
def span? (lines : Lines) (text : String) (line : Nat) : Option Span :=
  match lines.starts[line]? with
  | none => none
  | some start =>
    (lines.text? text line).map fun body => { start := start, stop := start + body.utf8ByteSize }

end Lines
end CrossReference
