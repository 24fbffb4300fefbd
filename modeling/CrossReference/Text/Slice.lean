/-!
# Slices by byte offset

Offsets into a text count the bytes of its UTF-8 form. A slice exists when both of its ends stand
between characters.
-/

namespace CrossReference
namespace Text

/-- What is left of the characters after `n` bytes; `none` if no character ends there. -/
def dropBytes? : Nat → List Char → Option (List Char)
  | 0, cs => some cs
  | _ + 1, [] => none
  | n + 1, c :: cs => if c.utf8Size ≤ n + 1 then dropBytes? (n + 1 - c.utf8Size) cs else none

/-- The characters of the first `n` bytes; `none` if no character ends there. -/
def takeBytes? : Nat → List Char → Option (List Char)
  | 0, _ => some []
  | _ + 1, [] => none
  | n + 1, c :: cs =>
    if c.utf8Size ≤ n + 1 then (takeBytes? (n + 1 - c.utf8Size) cs).map (c :: ·) else none

/-- The part of `s` from byte `start` up to byte `stop`. -/
def slice? (s : String) (start stop : Nat) : Option String :=
  if start ≤ stop then
    match dropBytes? start s.toList with
    | none => none
    | some rest => (takeBytes? (stop - start) rest).map String.ofList
  else
    none

end Text
end CrossReference
