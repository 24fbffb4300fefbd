import CrossReference.Proofs.Text.Infix
import CrossReference.Text.Blank
import Mathlib.Data.List.TakeWhile

/-!
# Texts put together from parts

A text that is put together from parts can be cut into these parts again, as long as no part has the
character that ends it. Here every way of cutting a text is described by the texts that it undoes.

* `Text.stripStart?_eq_some_iff` and `Text.stripEnd?_eq_some_iff` describe a mark at an end.
* `Text.splitFirst?_append` finds the first separator, and `Text.splitFirst?_eq_some_iff` says what
  a split at a single character comes to.
* `Text.exists_trimEnd`, `Text.exists_trimBoth` and `Text.trimBoth_append` describe trimming.
* `Text.pieces_append_cons` takes the first piece off a text, and `Text.pieces_cases` says that
  there is no other way to get pieces.
-/

namespace CrossReference
namespace Text

/-! ## Marks at the ends -/

theorem stripStart?_eq_some_iff {lead s rest : String} :
    stripStart? lead s = some rest ↔ s = lead ++ rest := by
  unfold stripStart?
  constructor
  · intro h
    split at h
    · rename_i hprefix
      obtain ⟨tail, htail⟩ := List.isPrefixOf_iff_prefix.1 hprefix
      obtain rfl := Option.some.inj h
      apply String.toList_inj.1
      simp [← htail]
    · exact absurd h (by simp)
  · rintro rfl
    have hprefix : lead.toList.isPrefixOf (lead ++ rest).toList = true :=
      List.isPrefixOf_iff_prefix.2 ⟨rest.toList, by simp⟩
    rw [if_pos hprefix]
    simp

theorem stripStart?_eq_none_iff {lead s : String} :
    stripStart? lead s = none ↔ ∀ rest, s ≠ lead ++ rest := by
  simp only [Option.eq_none_iff_forall_ne_some, ne_eq, stripStart?_eq_some_iff]

theorem stripEnd?_eq_some_iff {tail s rest : String} :
    stripEnd? tail s = some rest ↔ s = rest ++ tail := by
  unfold stripEnd?
  constructor
  · intro h
    split at h
    · rename_i hsuffix
      obtain ⟨front, hfront⟩ := List.isSuffixOf_iff_suffix.1 hsuffix
      obtain rfl := Option.some.inj h
      apply String.toList_inj.1
      simp [← hfront]
    · exact absurd h (by simp)
  · rintro rfl
    have hsuffix : tail.toList.isSuffixOf (rest ++ tail).toList = true :=
      List.isSuffixOf_iff_suffix.2 ⟨rest.toList, by simp⟩
    rw [if_pos hsuffix]
    simp

theorem stripEnd?_eq_none {tail s : String} {c : Char} (hc : c ∈ tail.toList) (h : c ∉ s.toList) :
    stripEnd? tail s = none := by
  rw [Option.eq_none_iff_forall_ne_some]
  intro rest hrest
  refine h ?_
  rw [stripEnd?_eq_some_iff.1 hrest, String.toList_append]
  exact List.mem_append_right _ hc

/-! ## The first separator -/

theorem cutFirst?_eq_none {x : Char} {cs : List Char} (h : x ∉ cs) (more : List Char) :
    cutFirst? (x :: more) cs = none := by
  induction cs with
  | nil => rfl
  | cons c cs ih =>
      obtain ⟨hne, hrest⟩ := List.ne_and_not_mem_of_not_mem_cons h
      have hprefix : (x :: more).isPrefixOf (c :: cs) = false := by
        simp [List.isPrefixOf, hne]
      simp [cutFirst?, hprefix, ih hrest]

theorem cutFirst?_append {x : Char} {before : List Char} (h : x ∉ before) (more after : List Char) :
    cutFirst? (x :: more) (before ++ (x :: more) ++ after) = some (before, after) := by
  induction before with
  | nil =>
      have hprefix : (x :: more).isPrefixOf (x :: (more ++ after)) = true :=
        List.isPrefixOf_iff_prefix.2 ⟨after, by simp⟩
      simp [cutFirst?, hprefix]
  | cons c before ih =>
      obtain ⟨hne, hrest⟩ := List.ne_and_not_mem_of_not_mem_cons h
      have hprefix : (x :: more).isPrefixOf (c :: (before ++ (x :: more) ++ after)) = false := by
        simp [List.isPrefixOf, hne]
      have hcut := ih hrest
      rw [List.cons_append, List.cons_append, cutFirst?, hprefix, hcut]
      rfl

theorem not_mem_of_cutFirst? {x : Char} {cs before after : List Char}
    (h : cutFirst? [x] cs = some (before, after)) : x ∉ before := by
  induction cs generalizing before after with
  | nil => exact absurd h (by simp [cutFirst?])
  | cons c cs ih =>
      rw [cutFirst?] at h
      split at h
      · obtain ⟨rfl, -⟩ := Prod.mk.inj (Option.some.inj h)
        exact List.not_mem_nil
      · rename_i hprefix
        obtain ⟨⟨b, a⟩, hcut, heq⟩ := Option.map_eq_some_iff.1 h
        obtain ⟨rfl, rfl⟩ := Prod.mk.inj heq
        have hne : x ≠ c := by simpa [List.isPrefixOf] using hprefix
        exact List.not_mem_cons_of_ne_of_not_mem hne (ih hcut)

theorem splitFirst?_append {sep before : String} {x : Char} {more : List Char}
    (hsep : sep.toList = x :: more) (h : x ∉ before.toList) (after : String) :
    splitFirst? sep (before ++ sep ++ after) = some (before, after) := by
  unfold splitFirst?
  rw [String.toList_append, String.toList_append, hsep, cutFirst?_append h]
  simp

theorem splitFirst?_eq_none {sep s : String} {x : Char} {more : List Char}
    (hsep : sep.toList = x :: more) (h : x ∉ s.toList) : splitFirst? sep s = none := by
  unfold splitFirst?
  rw [hsep, cutFirst?_eq_none h]
  rfl

theorem eq_append_of_splitFirst? {sep s before after : String}
    (h : splitFirst? sep s = some (before, after)) : s = before ++ sep ++ after := by
  obtain ⟨⟨b, a⟩, hcut, heq⟩ := Option.map_eq_some_iff.1 h
  obtain ⟨rfl, rfl⟩ := Prod.mk.inj heq
  apply String.toList_inj.1
  simpa using eq_append_of_cutFirst? hcut

/-- A split at a character is a split at its first occurrence. -/
theorem splitFirst?_eq_some_iff {x : Char} {s before after : String} :
    splitFirst? (String.ofList [x]) s = some (before, after) ↔
      s.toList = before.toList ++ x :: after.toList ∧ x ∉ before.toList := by
  unfold splitFirst?
  rw [String.toList_ofList]
  constructor
  · intro h
    obtain ⟨⟨b, a⟩, hcut, heq⟩ := Option.map_eq_some_iff.1 h
    obtain ⟨rfl, rfl⟩ := Prod.mk.inj heq
    rw [String.toList_ofList, String.toList_ofList]
    exact ⟨by simpa using eq_append_of_cutFirst? hcut, not_mem_of_cutFirst? hcut⟩
  · rintro ⟨hs, hbefore⟩
    have hcut := cutFirst?_append hbefore [] after.toList
    rw [List.append_assoc, List.singleton_append, ← hs] at hcut
    simp [hcut]

/-! ## Trimming -/

section Trimming

variable {p : Char → Bool}

/-- Trimming takes characters off the end until one is met that is not to be trimmed. -/
theorem exists_trimEnd (p : Char → Bool) (s : String) : ∃ after : String,
    (∀ c ∈ after.toList, p c = true) ∧ (∀ c ∈ (trimEnd p s).toList.getLast?, p c = false) ∧
      s = trimEnd p s ++ after := by
  refine ⟨.ofList (s.toList.reverse.takeWhile p).reverse, ?_, ?_, ?_⟩
  · rw [String.toList_ofList]
    exact fun c hc => List.mem_takeWhile_imp (List.mem_reverse.1 hc)
  · rw [trimEnd, String.toList_ofList, List.getLast?_reverse]
    intro c hc
    have hhead := List.head?_dropWhile_not p s.toList.reverse
    rw [hc] at hhead
    exact hhead
  · apply String.toList_inj.1
    simp only [trimEnd, String.toList_append, String.toList_ofList]
    rw [← List.reverse_append, List.takeWhile_append_dropWhile, List.reverse_reverse]

theorem exists_trimBoth (p : Char → Bool) (s : String) : ∃ before after : String,
    (∀ c ∈ before.toList, p c = true) ∧ (∀ c ∈ after.toList, p c = true) ∧
      s = before ++ trimBoth p s ++ after := by
  obtain ⟨after, hafter, -, hstart⟩ := exists_trimEnd p (trimStart p s)
  refine ⟨.ofList (s.toList.takeWhile p), after, ?_, hafter, ?_⟩
  · rw [String.toList_ofList]
    exact fun c hc => List.mem_takeWhile_imp hc
  · rw [String.append_assoc, trimBoth, ← hstart]
    apply String.toList_inj.1
    rw [trimStart, String.toList_append, String.toList_ofList, String.toList_ofList,
      List.takeWhile_append_dropWhile]

/-- Trimming finds a text whose ends are not to be trimmed. -/
theorem trimBoth_append {before text after : String} (hbefore : ∀ c ∈ before.toList, p c = true)
    (hafter : ∀ c ∈ after.toList, p c = true) (hne : text ≠ "")
    (hfirst : ∀ c ∈ text.toList.head?, p c = false)
    (hlast : ∀ c ∈ text.toList.getLast?, p c = false) :
    trimBoth p (before ++ text ++ after) = text := by
  have hnil : text.toList ≠ [] := mt String.toList_eq_nil_iff.1 hne
  have hdrop : ∀ {lead rest : List Char}, rest ≠ [] → (∀ c ∈ lead, p c = true) →
      (∀ c ∈ rest.head?, p c = false) → (lead ++ rest).dropWhile p = rest := by
    intro lead rest hrest hlead hhead
    obtain ⟨c, cs, rfl⟩ := List.exists_cons_of_ne_nil hrest
    rw [List.dropWhile_append_of_pos hlead, List.dropWhile_cons_of_neg (by simp [hhead c rfl])]
  have hstart : (before ++ text ++ after).toList.dropWhile p = text.toList ++ after.toList := by
    rw [String.toList_append, String.toList_append, List.append_assoc]
    refine hdrop (by simp [hnil]) hbefore ?_
    rwa [List.head?_append_of_ne_nil _ hnil]
  have hstop : (text.toList ++ after.toList).reverse.dropWhile p = text.toList.reverse := by
    rw [List.reverse_append]
    refine hdrop (by simpa using hnil) (fun c hc => hafter c (List.mem_reverse.1 hc)) ?_
    rwa [List.head?_reverse]
  apply String.toList_inj.1
  simp only [trimBoth, trimEnd, trimStart, String.toList_ofList, hstart, hstop,
    List.reverse_reverse]

end Trimming

/-! ## Pieces -/

section Pieces

variable {sep : Char}

theorem pieces_of_not_mem {cs : List Char} (h : sep ∉ cs) : pieces sep cs = [cs] := by
  induction cs with
  | nil => rfl
  | cons c cs ih =>
      obtain ⟨hne, hrest⟩ := List.ne_and_not_mem_of_not_mem_cons h
      rw [pieces, if_neg (Ne.symm hne), ih hrest]

theorem pieces_append_cons {piece : List Char} (h : sep ∉ piece) (rest : List Char) :
    pieces sep (piece ++ sep :: rest) = piece :: pieces sep rest := by
  induction piece with
  | nil => rw [List.nil_append, pieces, if_pos rfl]
  | cons c piece ih =>
      obtain ⟨hne, hpiece⟩ := List.ne_and_not_mem_of_not_mem_cons h
      rw [List.cons_append, pieces, if_neg (Ne.symm hne), ih hpiece]

theorem pieces_ne_nil (sep : Char) (cs : List Char) : pieces sep cs ≠ [] := by
  cases cs with
  | nil => simp [pieces]
  | cons c cs =>
      rw [pieces]
      split
      · simp
      · split <;> simp

theorem pieces_cases {cs piece : List Char} {others : List (List Char)}
    (h : pieces sep cs = piece :: others) :
    others = [] ∧ cs = piece ∨ ∃ rest, cs = piece ++ sep :: rest ∧ pieces sep rest = others := by
  induction cs generalizing piece with
  | nil =>
      obtain ⟨rfl, rfl⟩ := List.cons.inj h
      exact .inl ⟨rfl, rfl⟩
  | cons c cs ih =>
      rw [pieces] at h
      split at h
      · rename_i hc
        obtain ⟨rfl, rfl⟩ := List.cons.inj h
        exact .inr ⟨cs, by rw [hc, List.nil_append], rfl⟩
      · split at h
        · rename_i hnil
          exact absurd hnil (pieces_ne_nil sep cs)
        · rename_i first rest hpieces
          obtain ⟨rfl, rfl⟩ := List.cons.inj h
          rcases ih hpieces with ⟨rfl, rfl⟩ | ⟨tail, rfl, htail⟩
          · exact .inl ⟨rfl, rfl⟩
          · exact .inr ⟨tail, rfl, htail⟩

end Pieces

end Text
end CrossReference
