import CrossReference.Proofs.Text.Infix
import CrossReference.Text.Blank

/-!
# Cutting a text and folding its case

Nothing that cuts a text into its parts looks at the case of a letter: the separators are no
letters, and a capital may stand wherever its small letter may. So it does not matter whether a text
is folded before or after it is cut.

* `Text.IgnoresCase` says that a test of characters does not tell a capital from its small letter;
  `Text.ignoresCase_of_capitals` reduces it to the 26 capitals.
* The lemmas named after `foldCase` or `map_toLower` say that an operation and folding commute.
* `Text.cutLast?_append` undoes a cut at the last separator.
-/

namespace CrossReference
namespace Text

/-- The ASCII capitals. -/
def capitals : List Char :=
  "ABCDEFGHIJKLMNOPQRSTUVWXYZ".toList

/-- Whether a test gives the same answer for a capital and for its small letter. -/
def IgnoresCase (p : Char → Bool) : Prop :=
  ∀ c : Char, p c.toLower = p c

/-- Folding changes nothing but capitals. -/
theorem mem_capitals {c : Char} (h : c.toLower ≠ c) : c ∈ capitals := by
  have hcapital : c.val ≥ 'A'.val ∧ c.val ≤ 'Z'.val := by
    by_contra hother
    exact h (dif_neg hother)
  obtain ⟨hlow, hhigh⟩ := hcapital
  simp only [ge_iff_le, UInt32.le_iff_toNat_le] at hlow hhigh
  change 65 ≤ c.toNat at hlow
  change c.toNat ≤ 90 at hhigh
  have hall : ∀ n, 65 ≤ n → n ≤ 90 → Char.ofNat n ∈ capitals := by decide
  rw [← Char.ofNat_toNat c]
  exact hall _ hlow hhigh

/-- A test ignores case if it does so on the capitals. -/
theorem ignoresCase_of_capitals {p : Char → Bool}
    (h : (capitals.all fun c => p c.toLower == p c) = true) : IgnoresCase p := by
  intro c
  by_cases hc : c.toLower = c
  · rw [hc]
  · exact beq_iff_eq.1 (List.all_eq_true.1 h c (mem_capitals hc))

theorem ignoresCase_isBlank : IgnoresCase isBlank :=
  ignoresCase_of_capitals (by decide +kernel)

/-- Whether a text has no letters, so that folding neither makes nor loses an occurrence of it. -/
def Caseless (sep : List Char) : Prop :=
  ∀ x ∈ sep, IgnoresCase (· == x)

theorem Caseless.toLower_eq_iff {sep : List Char} (hsep : Caseless sep) {x : Char} (hx : x ∈ sep)
    (c : Char) : c.toLower = x ↔ c = x := by
  have h : (c.toLower == x) = (c == x) := hsep x hx c
  rw [← beq_iff_eq, h, beq_iff_eq]

/-- A text is caseless if it has none of the 26 small letters and none of their capitals. -/
theorem caseless_of_capitals {sep : List Char}
    (h : (sep.all fun x => capitals.all fun c => (c.toLower == x) == (c == x)) = true) :
    Caseless sep :=
  fun x hx => ignoresCase_of_capitals (List.all_eq_true.1 h x hx)

/-! ## Cuts -/

/-- Both parts of a cut, folded. -/
def foldParts (parts : List Char × List Char) : List Char × List Char :=
  (parts.1.map Char.toLower, parts.2.map Char.toLower)

section

variable {sep : List Char} (hsep : Caseless sep)

include hsep

theorem isPrefixOf_map_toLower (cs : List Char) :
    sep.isPrefixOf (cs.map Char.toLower) = sep.isPrefixOf cs := by
  induction sep generalizing cs with
  | nil => simp
  | cons x sep ih =>
      cases cs with
      | nil => rfl
      | cons c cs =>
          have hhead : (x == c.toLower) = (x == c) := by
            rw [Bool.eq_iff_iff, beq_iff_eq, beq_iff_eq, eq_comm,
              hsep.toLower_eq_iff List.mem_cons_self, eq_comm]
          have htail : Caseless sep := fun y hy => hsep y (List.mem_cons_of_mem x hy)
          rw [List.map_cons, List.isPrefixOf, List.isPrefixOf, hhead, ih htail]

theorem cutFirst?_map_toLower (cs : List Char) :
    cutFirst? sep (cs.map Char.toLower) = (cutFirst? sep cs).map foldParts := by
  induction cs with
  | nil => rfl
  | cons c cs ih =>
      have hprefix := isPrefixOf_map_toLower hsep (c :: cs)
      rw [List.map_cons] at hprefix ⊢
      rw [cutFirst?, cutFirst?, hprefix, ih]
      split
      · simp [foldParts, List.map_drop]
      · cases cutFirst? sep cs <;> rfl

theorem cutLast?_map_toLower (cs : List Char) :
    cutLast? sep (cs.map Char.toLower) = (cutLast? sep cs).map foldParts := by
  induction cs with
  | nil => rfl
  | cons c cs ih =>
      have hprefix := isPrefixOf_map_toLower hsep (c :: cs)
      rw [List.map_cons] at hprefix ⊢
      rw [cutLast?, cutLast?, hprefix, ih]
      cases cutLast? sep cs with
      | some parts => rfl
      | none =>
          simp only [Option.map_none]
          split
          · simp [foldParts, List.map_drop]
          · rfl

end

/-- What stands before a text with the separator in it does not move the cut. -/
theorem cutLast?_append_of_some {sep cs before after : List Char}
    (h : cutLast? sep cs = some (before, after)) (first : List Char) :
    cutLast? sep (first ++ cs) = some (first ++ before, after) := by
  induction first with
  | nil => exact h
  | cons c first ih => rw [List.cons_append, cutLast?, ih, List.cons_append]

theorem cutLast?_append {sep after : List Char} (hsep : sep ≠ [])
    (h : cutLast? sep (sep.tail ++ after) = none) (before : List Char) :
    cutLast? sep (before ++ sep ++ after) = some (before, after) := by
  have hlast : cutLast? sep (sep ++ after) = some ([], after) := by
    obtain ⟨x, rest, rfl⟩ := List.exists_cons_of_ne_nil hsep
    have hp : (x :: rest).isPrefixOf (x :: (rest ++ after)) = true :=
      List.isPrefixOf_iff_prefix.2 ⟨after, rfl⟩
    rw [List.tail_cons] at h
    simp [cutLast?, h, hp]
  rw [List.append_assoc, cutLast?_append_of_some hlast, List.append_nil]

/-- A text that begins with the separator can be cut. -/
theorem exists_cutLast? {sep : List Char} (hsep : sep ≠ []) (after : List Char) :
    ∃ parts, cutLast? sep (sep ++ after) = some parts := by
  cases h : cutLast? sep (sep.tail ++ after) with
  | none => exact ⟨_, cutLast?_append hsep h []⟩
  | some parts =>
      obtain ⟨x, rest, rfl⟩ := List.exists_cons_of_ne_nil hsep
      exact ⟨_, cutLast?_append_of_some h [x]⟩

theorem cutLast?_tail_append {sep cs before after : List Char} (hsep : sep ≠ [])
    (h : cutLast? sep cs = some (before, after)) : cutLast? sep (sep.tail ++ after) = none := by
  induction cs generalizing before after with
  | nil => simp [cutLast?] at h
  | cons c cs ih =>
      rw [cutLast?] at h
      split at h
      · rename_i b a hcut
        obtain ⟨-, rfl⟩ := Prod.mk.inj (Option.some.inj h)
        exact ih hcut
      · rename_i hcut
        split at h
        · rename_i hp
          obtain ⟨-, rfl⟩ := Prod.mk.inj (Option.some.inj h)
          obtain ⟨x, rest, rfl⟩ := List.exists_cons_of_ne_nil hsep
          obtain ⟨t, ht⟩ := List.isPrefixOf_iff_prefix.1 hp
          obtain ⟨rfl, rfl⟩ := List.cons.inj ht
          simpa using hcut
        · exact absurd h (by simp)

theorem pieces_map_toLower {sep : Char} (hsep : Caseless [sep]) (cs : List Char) :
    pieces sep (cs.map Char.toLower) = (pieces sep cs).map (List.map Char.toLower) := by
  induction cs with
  | nil => rfl
  | cons c cs ih =>
      have hc : c.toLower = sep ↔ c = sep := hsep.toLower_eq_iff List.mem_cons_self c
      rw [List.map_cons, pieces, pieces, ih]
      by_cases h : c = sep
      · rw [if_pos h, if_pos (hc.2 h)]
        rfl
      · rw [if_neg h, if_neg (mt hc.1 h)]
        cases pieces sep cs <;> rfl

/-! ## Strings -/

theorem foldCase_ofList (cs : List Char) :
    foldCase (String.ofList cs) = String.ofList (cs.map Char.toLower) := by
  rw [foldCase, String.toList_ofList]

theorem foldCase_append (s t : String) : foldCase (s ++ t) = foldCase s ++ foldCase t := by
  apply String.toList_inj.1
  simp

theorem foldCase_eq_empty_iff {s : String} : foldCase s = "" ↔ s = "" := by
  rw [← String.toList_eq_nil_iff, toList_foldCase, List.map_eq_nil_iff, String.toList_eq_nil_iff]

theorem splitFirst?_foldCase {sep : String} (hsep : Caseless sep.toList) (s : String) :
    splitFirst? sep (foldCase s) =
      (splitFirst? sep s).map fun (before, after) => (foldCase before, foldCase after) := by
  unfold splitFirst?
  rw [toList_foldCase, cutFirst?_map_toLower hsep, Option.map_map, Option.map_map]
  congr 1
  funext parts
  simp [foldParts, foldCase_ofList]

theorem stripStart?_foldCase {lead : String} (hlead : Caseless lead.toList) (s : String) :
    stripStart? lead (foldCase s) = (stripStart? lead s).map foldCase := by
  unfold stripStart?
  rw [toList_foldCase, isPrefixOf_map_toLower hlead, apply_ite (Option.map foldCase)]
  simp [foldCase_ofList, List.map_drop]

theorem stripEnd?_foldCase {tail : String} (htail : Caseless tail.toList) (s : String) :
    stripEnd? tail (foldCase s) = (stripEnd? tail s).map foldCase := by
  have hreverse : Caseless tail.toList.reverse := fun x hx => htail x (List.mem_reverse.1 hx)
  have hsuffix : tail.toList.isSuffixOf (s.toList.map Char.toLower) =
      tail.toList.isSuffixOf s.toList := by
    rw [List.isSuffixOf, List.isSuffixOf, ← List.map_reverse, isPrefixOf_map_toLower hreverse]
  unfold stripEnd?
  rw [toList_foldCase, hsuffix, apply_ite (Option.map foldCase)]
  simp [foldCase_ofList, List.map_take]

theorem trimStart_foldCase {p : Char → Bool} (hp : IgnoresCase p) (s : String) :
    trimStart p (foldCase s) = foldCase (trimStart p s) := by
  have hcomp : p ∘ Char.toLower = p := funext hp
  unfold trimStart
  rw [toList_foldCase, List.dropWhile_map, hcomp, foldCase_ofList]

theorem trimEnd_foldCase {p : Char → Bool} (hp : IgnoresCase p) (s : String) :
    trimEnd p (foldCase s) = foldCase (trimEnd p s) := by
  have hcomp : p ∘ Char.toLower = p := funext hp
  unfold trimEnd
  rw [toList_foldCase, ← List.map_reverse, List.dropWhile_map, hcomp, ← List.map_reverse,
    foldCase_ofList]

theorem trimBlanks_foldCase (s : String) : trimBlanks (foldCase s) = foldCase (trimBlanks s) := by
  unfold trimBlanks trimBoth
  rw [trimStart_foldCase ignoresCase_isBlank, trimEnd_foldCase ignoresCase_isBlank]

end Text
end CrossReference
