/-!
# Cutting text

Splitting a text at the first or the last occurrence of a separator, trimming its ends, and
searching for one text inside another. The work is done on lists of characters; the operations on
strings wrap it.
-/

namespace CrossReference
namespace Text

/-- The characters before and after the first occurrence of `sep`. -/
def cutFirst? (sep : List Char) : List Char → Option (List Char × List Char)
  | [] => none
  | c :: cs =>
    if sep.isPrefixOf (c :: cs) then
      some ([], (c :: cs).drop sep.length)
    else
      (cutFirst? sep cs).map fun (before, after) => (c :: before, after)

/-- The characters before and after the last occurrence of `sep`. -/
def cutLast? (sep : List Char) : List Char → Option (List Char × List Char)
  | [] => none
  | c :: cs =>
    match cutLast? sep cs with
    | some (before, after) => some (c :: before, after)
    | none =>
      if sep.isPrefixOf (c :: cs) then
        some ([], (c :: cs).drop sep.length)
      else
        none

/-- `s` split at the first occurrence of the nonempty text `sep`. -/
def splitFirst? (sep s : String) : Option (String × String) :=
  (cutFirst? sep.toList s.toList).map fun (before, after) =>
    (String.ofList before, String.ofList after)

/-- `s` split at the last occurrence of the nonempty text `sep`. -/
def splitLast? (sep s : String) : Option (String × String) :=
  (cutLast? sep.toList s.toList).map fun (before, after) =>
    (String.ofList before, String.ofList after)

/-- The parts of `cs` between the occurrences of the character `sep`; never empty. -/
def pieces (sep : Char) : List Char → List (List Char)
  | [] => [[]]
  | c :: cs =>
    if c = sep then
      [] :: pieces sep cs
    else
      match pieces sep cs with
      | [] => [[c]]
      | piece :: rest => (c :: piece) :: rest

/-- `s` without the leading characters that satisfy `p`. -/
def trimStart (p : Char → Bool) (s : String) : String :=
  String.ofList (s.toList.dropWhile p)

/-- `s` without the trailing characters that satisfy `p`. -/
def trimEnd (p : Char → Bool) (s : String) : String :=
  String.ofList (s.toList.reverse.dropWhile p).reverse

/-- `s` without the characters at both ends that satisfy `p`. -/
def trimBoth (p : Char → Bool) (s : String) : String :=
  trimEnd p (trimStart p s)

/-- `s` without the leading text `lead`, if it begins with it. -/
def stripStart? (lead s : String) : Option String :=
  if lead.toList.isPrefixOf s.toList then
    some (String.ofList (s.toList.drop lead.toList.length))
  else
    none

/-- `s` without the trailing text `tail`, if it ends with it. -/
def stripEnd? (tail s : String) : Option String :=
  if tail.toList.isSuffixOf s.toList then
    some (String.ofList (s.toList.take (s.toList.length - tail.toList.length)))
  else
    none

/-- Whether the characters `needle` stand next to each other somewhere in a list. -/
def occursIn (needle : List Char) : List Char → Bool
  | [] => needle.isEmpty
  | c :: cs => needle.isPrefixOf (c :: cs) || occursIn needle cs

/-- Whether `needle` is a part of `text`. -/
def contains (text needle : String) : Bool :=
  occursIn needle.toList text.toList

theorem occursIn_iff {needle cs : List Char} : occursIn needle cs = true ↔ needle <:+: cs := by
  induction cs with
  | nil => simp [occursIn, List.infix_nil]
  | cons c cs ih =>
    simp [occursIn, ih, List.infix_cons_iff]

theorem contains_iff {text needle : String} :
    contains text needle = true ↔ needle.toList <:+: text.toList :=
  occursIn_iff

/-- A cut loses nothing but the separator. -/
theorem eq_append_of_cutFirst? {sep cs before after : List Char}
    (h : cutFirst? sep cs = some (before, after)) : cs = before ++ sep ++ after := by
  induction cs generalizing before after with
  | nil => simp [cutFirst?] at h
  | cons c cs ih =>
    by_cases hp : sep.isPrefixOf (c :: cs)
    · obtain ⟨rest, hrest⟩ := List.isPrefixOf_iff_prefix.1 hp
      simp only [cutFirst?, hp, if_true, Option.some.injEq, Prod.mk.injEq] at h
      obtain ⟨rfl, rfl⟩ := h
      rw [← hrest]
      simp
    · simp only [cutFirst?, hp] at h
      obtain ⟨⟨b, a⟩, hcut, heq⟩ := Option.map_eq_some_iff.1 h
      simp only [Prod.mk.injEq] at heq
      obtain ⟨rfl, rfl⟩ := heq
      simp [ih hcut]

/-- A cut at the last occurrence loses nothing but the separator. -/
theorem eq_append_of_cutLast? {sep cs before after : List Char}
    (h : cutLast? sep cs = some (before, after)) : cs = before ++ sep ++ after := by
  induction cs generalizing before after with
  | nil => simp [cutLast?] at h
  | cons c cs ih =>
    rw [cutLast?] at h
    split at h
    · rename_i b a hcut
      simp only [Option.some.injEq, Prod.mk.injEq] at h
      obtain ⟨rfl, rfl⟩ := h
      simp [ih hcut]
    · split at h
      · rename_i hp
        obtain ⟨rest, hrest⟩ := List.isPrefixOf_iff_prefix.1 hp
        simp only [Option.some.injEq, Prod.mk.injEq] at h
        obtain ⟨rfl, rfl⟩ := h
        rw [← hrest]
        simp
      · simp at h

end Text
end CrossReference
