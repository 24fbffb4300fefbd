import CrossReference.Text.IdentifierRanges

/-!
# Identifiers

An identifier is an underscore or a character that may start one, followed by characters that may
continue one. Which characters these are is a matter of an alphabet; the one of the Unicode tables
is given here.
-/

namespace CrossReference
namespace Text

/-- Whether an interval of `ranges` holds the code point of `c`. -/
def inRanges (ranges : List (Nat × Nat)) (c : Char) : Bool :=
  ranges.any fun (low, high) => low ≤ c.toNat && c.toNat ≤ high

/-- The characters that identifiers are made of. -/
structure Alphabet where
  /-- Whether a character may begin an identifier, underscores apart. -/
  starts : Char → Bool
  /-- Whether a character may stand inside an identifier. -/
  continues : Char → Bool

namespace Alphabet

/-- The characters of the Unicode tables. -/
def unicode : Alphabet where
  starts := inRanges identifierStartRanges
  continues c := inRanges identifierStartRanges c || inRanges identifierExtendRanges c

/-- Whether the characters spell an identifier. -/
def isIdentifier (alphabet : Alphabet) : List Char → Bool
  | [] => false
  | c :: cs => (c == '_' || alphabet.starts c) && cs.all alphabet.continues

end Alphabet
end Text
end CrossReference
