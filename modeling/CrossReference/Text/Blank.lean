import CrossReference.Text.Cut

/-!
# Blanks

The characters with the Unicode property `White_Space`, and trimming by them.
-/

namespace CrossReference
namespace Text

/-- Code points of the blank characters, as closed intervals in increasing order. -/
def blankRanges : List (Nat × Nat) :=
  [(0x9, 0xD), (0x20, 0x20), (0x85, 0x85), (0xA0, 0xA0), (0x1680, 0x1680), (0x2000, 0x200A),
   (0x2028, 0x2029), (0x202F, 0x202F), (0x205F, 0x205F), (0x3000, 0x3000)]

/-- Whether `c` is a blank. -/
def isBlank (c : Char) : Bool :=
  blankRanges.any fun (low, high) => low ≤ c.toNat && c.toNat ≤ high

/-- `s` without the blanks around it. -/
def trimBlanks (s : String) : String :=
  trimBoth isBlank s

end Text
end CrossReference
