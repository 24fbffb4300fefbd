import CrossReference.Name
import CrossReference.Proofs.Text.Case
import Mathlib.Data.List.DropRight

/-!
# Laws of qualified names

What trimming, folding and joining do to each other.
-/

namespace CrossReference
namespace Name

@[simp] theorem toList_relative (name : String) :
    (relative name).toList = name.toList.dropWhile isSeparator := by
  simp [relative, Text.trimStart]

@[simp] theorem relative_relative (name : String) : relative (relative name) = relative name := by
  apply String.toList_inj.1
  simp [List.dropWhile_idempotent]

/-- The key of a name does not depend on its leading separators. -/
@[simp] theorem key_relative (name : String) : key (relative name) = key name := by
  unfold key
  rw [relative_relative]

theorem ignoresCase_isSeparator : Text.IgnoresCase isSeparator :=
  Text.ignoresCase_of_capitals (by decide)

/-- The key of a name is a spelling of it. -/
@[simp] theorem key_key (name : String) : key (key name) = key name := by
  have hkey : relative (Text.foldCase (relative name)) = Text.foldCase (relative name) := by
    unfold relative
    rw [Text.trimStart_foldCase ignoresCase_isSeparator]
    exact congrArg Text.foldCase (relative_relative name)
  unfold key
  rw [hkey, Text.foldCase_foldCase]

theorem isInfix_relative (name : String) : (relative name).toList <:+: name.toList :=
  Text.isInfix_trimStart isSeparator name

theorem isInfix_bare (name : String) : (bare name).toList <:+: name.toList :=
  Text.isInfix_trimBoth isSeparator name

/-- A name without separators has none to lose. -/
theorem bare_of_plain {name : String} (h : ∀ c ∈ name.toList, isSeparator c = false) :
    bare name = name := by
  have hdrop : ∀ cs : List Char, (∀ c ∈ cs, isSeparator c = false) →
      cs.dropWhile isSeparator = cs := by
    intro cs hcs
    rw [List.dropWhile_eq_self_iff]
    intro hpos
    simp [hcs _ (List.getElem_mem hpos)]
  apply String.toList_inj.1
  have hreverse : ∀ c ∈ name.toList.reverse, isSeparator c = false :=
    fun c hc => h c (List.mem_reverse.1 hc)
  simp [bare, Text.trimBoth, Text.trimEnd, Text.trimStart, hdrop _ h, hdrop _ hreverse]

theorem toList_join (outer inner : String) :
    (join outer inner).toList = outer.toList ++ separator :: inner.toList := by
  simp [join]

theorem toList_member (owner m : String) :
    (member owner m).toList = owner.toList ++ memberMark.toList ++ m.toList := by
  simp [member]

/-- The separators at the start of the name of a member are those of its owner. -/
theorem relative_member (owner m : String) :
    relative (member owner m) = member (relative owner) m := by
  have hmark : isSeparator ':' = false := by decide
  apply String.toList_inj.1
  simp only [toList_relative, toList_member, memberMark, List.append_assoc,
    List.dropWhile_append]
  by_cases hall : ∀ x ∈ owner.toList, isSeparator x = true
  · simp [List.dropWhile_eq_nil_iff.2 hall, hmark]
  · simp [hall]

theorem caseless_separator : Text.Caseless [separator] :=
  Text.caseless_of_capitals (by decide)

theorem caseless_memberMark : Text.Caseless memberMark.toList :=
  Text.caseless_of_capitals (by decide)

theorem foldCase_join (outer inner : String) :
    Text.foldCase (join outer inner) = join (Text.foldCase outer) (Text.foldCase inner) := by
  have hseparator : Text.foldCase (String.ofList [separator]) = String.ofList [separator] := rfl
  unfold join
  rw [Text.foldCase_append, Text.foldCase_append, hseparator]

theorem foldCase_member (owner m : String) :
    Text.foldCase (member owner m) = member (Text.foldCase owner) (Text.foldCase m) := by
  have hmark : Text.foldCase memberMark = memberMark := rfl
  unfold member
  rw [Text.foldCase_append, Text.foldCase_append, hmark]

theorem key_member (owner m : String) :
    key (member owner m) = key owner ++ memberMark ++ Text.foldCase m := by
  unfold key
  rw [relative_member, foldCase_member]
  rfl

theorem separator_not_mem_lastPart (name : String) : separator ∉ (lastPart name).toList := by
  unfold lastPart
  split
  · rename_i before after hcut
    rw [String.toList_ofList]
    exact Text.not_mem_of_cutLast? hcut
  · rename_i hcut
    exact Text.not_mem_of_cutLast?_eq_none hcut

end Name
end CrossReference
