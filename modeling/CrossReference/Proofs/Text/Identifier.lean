import CrossReference.Name
import CrossReference.Proofs.Text.Case
import CrossReference.Text.Identifier

/-!
# Alphabets of identifiers

Query strings are cut at blanks, separators and marks, and folded. What this asks of the alphabet of
their identifiers is collected here, so that nothing else has to look into the Unicode tables: a
later version of the tables has to be checked for these facts and for nothing more.

* `Text.Alphabet.Lawful` lists the facts; the instance for `Text.Alphabet.unicode` checks them.
* `Text.Alphabet.continues_of_mem` and `Text.Alphabet.isIdentifier_foldCase` are what follows for
  identifiers.
-/

namespace CrossReference
namespace Text

/-- What is asked of the characters of identifiers. -/
class Alphabet.Lawful (alphabet : Alphabet) : Prop where
  continues_of_starts : ∀ c, alphabet.starts c = true → alphabet.continues c = true
  continues_underscore : alphabet.continues '_' = true
  not_isBlank : ∀ c, alphabet.continues c = true → isBlank c = false
  /-- Neither the separator of names nor the first character of a mark is in an identifier. -/
  not_continues : ∀ c ∈ [Name.separator, ':', '$', '('], alphabet.continues c = false
  ignoresCase_starts : IgnoresCase alphabet.starts
  ignoresCase_continues : IgnoresCase alphabet.continues

/-! ## The Unicode tables -/

/-- Tables without a common interval have no common character. -/
theorem not_inRanges_of_apart {xs ys : List (Nat × Nat)}
    (h : (xs.all fun x => ys.all fun y => decide (x.2 < y.1 ∨ y.2 < x.1)) = true) {c : Char}
    (hc : inRanges xs c = true) : inRanges ys c = false := by
  unfold inRanges at hc ⊢
  obtain ⟨x, hx, hin⟩ := List.any_eq_true.1 hc
  rw [List.any_eq_false]
  intro y hy
  have hapart := List.all_eq_true.1 (List.all_eq_true.1 h x hx) y hy
  simp only [Bool.and_eq_true, decide_eq_true_eq] at hin hapart ⊢
  omega

theorem not_isBlank_of_continues_unicode {c : Char} (h : Alphabet.unicode.continues c = true) :
    isBlank c = false := by
  show inRanges blankRanges c = false
  rcases Bool.or_eq_true_iff.1 h with hstart | hextend
  · exact not_inRanges_of_apart (by decide +kernel) hstart
  · exact not_inRanges_of_apart (by decide +kernel) hextend

instance : Alphabet.unicode.Lawful where
  continues_of_starts := fun _ h => Bool.or_eq_true_iff.2 (.inl h)
  continues_underscore := by decide +kernel
  not_isBlank := fun _ => not_isBlank_of_continues_unicode
  not_continues := by
    have hall : ([Name.separator, ':', '$', '('].all fun c => !Alphabet.unicode.continues c) =
        true := by decide +kernel
    intro c hc
    simpa using List.all_eq_true.1 hall c hc
  ignoresCase_starts := ignoresCase_of_capitals (by decide +kernel)
  ignoresCase_continues := ignoresCase_of_capitals (by decide +kernel)

/-! ## Identifiers of a lawful alphabet -/

namespace Alphabet

variable {alphabet : Alphabet} [alphabet.Lawful]

/-- Every character of an identifier may stand inside of one. -/
theorem continues_of_mem {word : List Char} (h : alphabet.isIdentifier word = true) {c : Char}
    (hc : c ∈ word) : alphabet.continues c = true := by
  cases word with
  | nil => exact absurd hc List.not_mem_nil
  | cons first rest =>
      rw [isIdentifier, Bool.and_eq_true, Bool.or_eq_true, beq_iff_eq, List.all_eq_true] at h
      obtain ⟨hfirst, hrest⟩ := h
      rcases List.mem_cons.1 hc with rfl | hc
      · rcases hfirst with rfl | hstart
        · exact Lawful.continues_underscore
        · exact Lawful.continues_of_starts c hstart
      · exact hrest c hc

theorem isIdentifier_map_toLower (cs : List Char) :
    alphabet.isIdentifier (cs.map Char.toLower) = alphabet.isIdentifier cs := by
  cases cs with
  | nil => rfl
  | cons c cs =>
      have hunderscore : (c.toLower == '_') = (c == '_') :=
        ignoresCase_of_capitals (p := fun c => c == '_') (by decide) c
      have hhead : (c.toLower == '_' || alphabet.starts c.toLower) =
          (c == '_' || alphabet.starts c) := by
        rw [hunderscore, Lawful.ignoresCase_starts c]
      have hrest : alphabet.continues ∘ Char.toLower = alphabet.continues :=
        funext Lawful.ignoresCase_continues
      rw [List.map_cons, isIdentifier, isIdentifier, hhead, List.all_map, hrest]

theorem isIdentifier_foldCase (s : String) :
    alphabet.isIdentifier (foldCase s).toList = alphabet.isIdentifier s.toList := by
  rw [toList_foldCase, isIdentifier_map_toLower]

end Alphabet
end Text
end CrossReference
