import CrossReference.Text.Case
import CrossReference.Text.Cut
import Mathlib.Data.List.Infix

/-!
# Parts of a text

Cutting and trimming leave parts of the text, and a text without the joining character cannot reach
across the joint of two others.
-/

namespace CrossReference
namespace Text

theorem prefix_of_prefix_append_cons {α : Type} {w before after : List α} {x : α} (hx : x ∉ w)
    (h : w <+: before ++ x :: after) : w <+: before := by
  have hjoint : before ++ [x] <+: before ++ x :: after := ⟨after, by simp⟩
  rcases List.prefix_or_prefix_of_prefix h hjoint with hw | hw
  · rcases List.prefix_concat_iff.1 hw with rfl | hw
    · exact absurd (by simp) hx
    · exact hw
  · exact absurd (hw.subset (by simp)) hx

/-- Around a character that `w` lacks, `w` stands on one side or on the other. -/
theorem infix_append_cons_iff {α : Type} {w before after : List α} {x : α} (hx : x ∉ w)
    (hw : w ≠ []) : w <:+: before ++ x :: after ↔ w <:+: before ∨ w <:+: after := by
  constructor
  · intro h
    induction before with
    | nil =>
        rcases List.infix_cons_iff.1 h with h | h
        · have hnil : w <+: [] := prefix_of_prefix_append_cons hx h
          exact absurd (List.prefix_nil.1 hnil) hw
        · exact .inr h
    | cons b before ih =>
        rcases List.infix_cons_iff.1 h with h | h
        · exact .inl (prefix_of_prefix_append_cons hx h).isInfix
        · rcases ih h with h | h
          · exact .inl (h.trans (List.suffix_cons b before).isInfix)
          · exact .inr h
  · rintro (h | h)
    · exact h.trans (List.prefix_append before (x :: after)).isInfix
    · exact h.trans ((List.suffix_cons x after).trans (List.suffix_append before _)).isInfix

theorem infix_of_splitFirst? {sep s before after : String}
    (h : splitFirst? sep s = some (before, after)) :
    before.toList <:+: s.toList ∧ after.toList <:+: s.toList := by
  obtain ⟨⟨b, a⟩, hcut, heq⟩ := Option.map_eq_some_iff.1 h
  obtain ⟨rfl, rfl⟩ := Prod.mk.inj heq
  rw [eq_append_of_cutFirst? hcut, String.toList_ofList, String.toList_ofList]
  exact ⟨⟨[], sep.toList ++ a, by simp⟩, ⟨b ++ sep.toList, [], by simp⟩⟩

theorem infix_of_stripStart? {lead s rest : String} (h : stripStart? lead s = some rest) :
    rest.toList <:+: s.toList := by
  unfold stripStart? at h
  split at h
  · obtain rfl := Option.some.inj h
    rw [String.toList_ofList]
    exact (List.drop_suffix _ _).isInfix
  · exact absurd h (by simp)

theorem isInfix_trimStart (p : Char → Bool) (s : String) :
    (trimStart p s).toList <:+: s.toList := by
  unfold trimStart
  rw [String.toList_ofList]
  exact (List.dropWhile_suffix p).isInfix

theorem isInfix_trimBoth (p : Char → Bool) (s : String) : (trimBoth p s).toList <:+: s.toList := by
  have hend : (trimEnd p (trimStart p s)).toList <+: (trimStart p s).toList := by
    unfold trimEnd
    rw [String.toList_ofList, ← List.reverse_suffix, List.reverse_reverse]
    exact List.dropWhile_suffix p
  exact hend.isInfix.trans (isInfix_trimStart p s)

theorem not_mem_of_cutLast?_eq_none {x : Char} {cs : List Char} (h : cutLast? [x] cs = none) :
    x ∉ cs := by
  induction cs with
  | nil => simp
  | cons c cs ih =>
      rw [cutLast?] at h
      split at h
      · exact absurd h (by simp)
      · rename_i hcut
        split at h
        · exact absurd h (by simp)
        · rename_i hne
          have hxc : x ≠ c := by simpa [List.isPrefixOf] using hne
          simp [hxc, ih hcut]

/-- After the last occurrence of a character there is none. -/
theorem not_mem_of_cutLast? {x : Char} {cs before after : List Char}
    (h : cutLast? [x] cs = some (before, after)) : x ∉ after := by
  induction cs generalizing before after with
  | nil => simp [cutLast?] at h
  | cons c cs ih =>
      rw [cutLast?] at h
      split at h
      · rename_i b a hcut
        obtain ⟨-, rfl⟩ := Prod.mk.inj (Option.some.inj h)
        exact ih hcut
      · rename_i hcut
        split at h
        · obtain ⟨-, rfl⟩ := Prod.mk.inj (Option.some.inj h)
          exact not_mem_of_cutLast?_eq_none hcut
        · exact absurd h (by simp)

end Text
end CrossReference
