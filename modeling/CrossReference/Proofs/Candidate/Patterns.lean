import CrossReference.Candidate
import CrossReference.Proofs.Text.Infix

/-!
# Which files are candidates

The choice of candidates, file by file. A text that is accepted is a candidate; for the queries that
ignore case the converse holds as well.
-/

namespace CrossReference
namespace Patterns

theorem containsFolded_iff {text needle : String} :
    containsFolded text needle = true ↔
      needle.toList.map Char.toLower <:+: text.toList.map Char.toLower := by
  simp [containsFolded, Text.contains_iff]

theorem containsFolded_empty {needle : String} (h : needle ≠ "") :
    containsFolded "" needle = false := by
  rw [Bool.eq_false_iff, ne_eq, containsFolded_iff]
  simpa using h

theorem containsFolded_of_part {whole part needle : String} (h : part.toList <:+: whole.toList)
    (hpart : containsFolded part needle = true) : containsFolded whole needle = true := by
  rw [containsFolded_iff] at hpart ⊢
  exact hpart.trans (h.map Char.toLower)

/-- A text contains what it contains exactly also up to case. -/
theorem containsFolded_of_contains {text word needle : String}
    (h : Text.contains text word = true) (hword : Text.sameFolded word needle = true) :
    containsFolded text needle = true := by
  rw [Text.sameFolded_iff] at hword
  have hlist := congrArg String.toList hword
  rw [Text.toList_foldCase, Text.toList_foldCase] at hlist
  rw [containsFolded_iff, ← hlist]
  exact (Text.contains_iff.1 h).map Char.toLower

theorem pass_eq_filter_range (p : Patterns) (ignoreCase : Bool) (texts : List String) :
    p.pass ignoreCase texts =
      (List.range texts.length).filter fun i => p.accept ignoreCase (texts.getD i "") := by
  have hzip : texts.zipIdx = (List.range texts.length).map fun i => (texts.getD i "", i) := by
    apply List.ext_getElem
    · simp
    · intro i h₁ h₂
      have hi : i < texts.length := by simpa using h₁
      simp [hi]
  unfold pass
  rw [hzip, List.filter_map, List.map_map]
  exact List.map_id _

theorem mem_pass_iff {p : Patterns} {ignoreCase : Bool} {texts : List String} {i : Nat} :
    i ∈ p.pass ignoreCase texts ↔
      ∃ text, texts[i]? = some text ∧ p.accept ignoreCase text = true := by
  rw [pass_eq_filter_range, List.mem_filter, List.mem_range]
  constructor
  · rintro ⟨hi, haccept⟩
    refine ⟨texts[i], List.getElem?_eq_getElem hi, ?_⟩
    simpa [hi] using haccept
  · rintro ⟨text, htext, haccept⟩
    obtain ⟨hi, rfl⟩ := List.getElem?_eq_some_iff.1 htext
    exact ⟨hi, by simpa [hi] using haccept⟩

theorem isEmpty_pass (p : Patterns) (ignoreCase : Bool) (texts : List String) :
    (p.pass ignoreCase texts).isEmpty = !texts.any (p.accept ignoreCase) := by
  rw [Bool.eq_iff_iff, List.isEmpty_iff, Bool.not_eq_true', List.any_eq_false]
  constructor
  · intro hnone text htext haccept
    obtain ⟨i, hi⟩ := List.getElem?_of_mem htext
    have hmem : i ∈ p.pass ignoreCase texts := mem_pass_iff.2 ⟨text, hi, haccept⟩
    rw [hnone] at hmem
    exact List.not_mem_nil hmem
  · intro hnone
    refine List.eq_nil_iff_forall_not_mem.2 ?_
    intro i hi
    obtain ⟨text, htext, haccept⟩ := mem_pass_iff.1 hi
    exact hnone text (List.mem_of_getElem? htext) haccept

/-- Whether a text is kept, where `found` tells whether the first look finds any text. -/
def keeps (p : Patterns) (caseFallback found : Bool) (text : String) : Bool :=
  p.isVacuous || p.accept (p.ignoreCase || !found && caseFallback) text

end Patterns

/-- Whether a text is a candidate depends on the others only as far as the first look goes. -/
theorem candidates_eq (settings : Settings) (query : Query) (texts : List String) :
    let p := Patterns.ofQuery settings query
    candidates settings query texts = (List.range texts.length).filter fun i =>
      p.keeps settings.caseFallback (texts.any (p.accept p.ignoreCase)) (texts.getD i "") := by
  unfold candidates Patterns.keeps
  generalize Patterns.ofQuery settings query = p
  simp only
  by_cases hvacuous : p.isVacuous = true
  · simp [hvacuous]
  · rw [Bool.not_eq_true] at hvacuous
    simp only [hvacuous, Bool.false_eq_true, if_false, Bool.false_or]
    rw [Patterns.isEmpty_pass, Patterns.pass_eq_filter_range, Patterns.pass_eq_filter_range]
    cases p.ignoreCase with
    | true => simp
    | false =>
        simp only [Bool.not_false, Bool.and_true, Bool.false_or]
        cases hlook : (!texts.any (p.accept false)) && settings.caseFallback with
        | true => simp
        | false => simp

/-- The second look is only for the case that the first finds nothing, so nothing that the first
finds gets lost. -/
theorem mem_candidates_of_accept {settings : Settings} {query : Query} {texts : List String}
    {i : Nat} {text : String} (htext : texts[i]? = some text)
    (h : let p := Patterns.ofQuery settings query
      p.isVacuous = true ∨ p.accept p.ignoreCase text = true) :
    i ∈ candidates settings query texts := by
  simp only [candidates]
  split
  · obtain ⟨hi, _⟩ := List.getElem?_eq_some_iff.1 htext
    exact List.mem_range.2 hi
  · rename_i hvacuous
    have haccept := h.resolve_left hvacuous
    have hpass := Patterns.mem_pass_iff.2 ⟨text, htext, haccept⟩
    rw [if_neg]
    · exact hpass
    · simp [List.isEmpty_eq_false_iff.2 (List.ne_nil_of_mem hpass)]

/-- The candidates for a type are the files whose text contains the last part of its name. -/
theorem candidates_type (settings : Settings) (subject : String) (texts : List String) :
    candidates settings (.type subject) texts = (List.range texts.length).filter fun i =>
      Patterns.containsFolded (texts.getD i "") (Name.lastPart subject) := by
  simp only [candidates]
  split
  · rename_i hvacuous
    have hempty : Name.lastPart subject = "" := by
      simpa [Patterns.isVacuous, Patterns.ofQuery] using hvacuous
    rw [hempty, eq_comm, List.filter_eq_self]
    intro i _
    exact Patterns.containsFolded_iff.2 (List.nil_infix)
  · rw [if_neg (by simp [Patterns.ofQuery]), Patterns.pass_eq_filter_range]
    simp [Patterns.accept, Patterns.ofQuery]

theorem mem_candidates_type_iff {settings : Settings} {subject : String} {texts : List String}
    {i : Nat} {text : String} (htext : texts[i]? = some text) :
    i ∈ candidates settings (.type subject) texts ↔
      Patterns.containsFolded text (Name.lastPart subject) = true := by
  obtain ⟨hi, rfl⟩ := List.getElem?_eq_some_iff.1 htext
  simp [candidates_type, List.mem_filter, hi]

end CrossReference
