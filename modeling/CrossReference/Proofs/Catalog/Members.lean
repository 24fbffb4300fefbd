import CrossReference.Proofs.Catalog.Lookup
import CrossReference.Proofs.Text.Identifier

/-!
# Keys of members

The qualified name of a member is cut at its last mark, and what stands before it is the owner. So
the key of a member is made of the key of its owner and of its own name, and both can be read off
it. Looking a member up on the owner that is spelled in its declaration finds that declaration.

* `SymbolKey.fold_member` gives the key of a member.
* `Catalog.findMember?_respelled` says that the spelling of the owner, and of the member as far as
  its kind ignores case, does not matter to a lookup.
* `Catalog.findMember?_owner` finds a member on its owner.
-/

namespace CrossReference

namespace Name

/-- Whether the last mark of the name of a member is the one before `member`. -/
def IsUnmarked (member : String) : Prop :=
  Text.cutLast? memberMark.toList (memberMark.toList.tail ++ member.toList) = none

theorem splitLast?_member {m : String} (h : IsUnmarked m) (owner : String) :
    Text.splitLast? memberMark (member owner m) = some (owner, m) := by
  unfold Text.splitLast?
  rw [toList_member, Text.cutLast?_append (by decide) h]
  simp

/-- A name with a mark is the name of a member of what stands before the last one. -/
theorem eq_member_of_splitLast? {name owner m : String}
    (h : Text.splitLast? memberMark name = some (owner, m)) :
    name = member owner m ∧ IsUnmarked m := by
  obtain ⟨⟨before, after⟩, hcut, heq⟩ := Option.map_eq_some_iff.1 h
  obtain ⟨rfl, rfl⟩ := Prod.mk.inj heq
  constructor
  · apply String.toList_inj.1
    rw [toList_member, String.toList_ofList, String.toList_ofList]
    exact Text.eq_append_of_cutLast? hcut
  · unfold IsUnmarked
    rw [String.toList_ofList]
    exact Text.cutLast?_tail_append (by decide) hcut

theorem IsUnmarked.member_inj {a b m m' : String} (hm : IsUnmarked m) (hm' : IsUnmarked m')
    (h : member a m = member b m') : a = b ∧ m = m' := by
  have hparts : some (a, m) = some (b, m') := by
    rw [← splitLast?_member hm, h, splitLast?_member hm']
  exact Prod.mk.inj (Option.some.inj hparts)

theorem IsUnmarked.foldCase {m : String} (h : IsUnmarked m) : IsUnmarked (Text.foldCase m) := by
  unfold IsUnmarked at h ⊢
  -- The rest of the mark before the member has no letters either.
  have hfold : memberMark.toList.tail ++ (Text.foldCase m).toList =
      (memberMark.toList.tail ++ m.toList).map Char.toLower := by
    rw [Text.toList_foldCase, List.map_append]
    rfl
  rw [hfold, Text.cutLast?_map_toLower caseless_memberMark, h]
  rfl

theorem isUnmarked_of_not_mem {m : String} (h : ':' ∉ m.toList) : IsUnmarked m := by
  unfold IsUnmarked
  cases hcut : Text.cutLast? memberMark.toList (memberMark.toList.tail ++ m.toList) with
  | none => rfl
  | some parts =>
      have hcount := congrArg (List.count ':') (Text.eq_append_of_cutLast? hcut)
      simp [memberMark, List.count_eq_zero_of_not_mem h] at hcount
      omega

/-- An identifier has no mark in it. -/
theorem isUnmarked_of_isIdentifier {alphabet : Text.Alphabet} [alphabet.Lawful] {m : String}
    (h : alphabet.isIdentifier m.toList = true) : IsUnmarked m := by
  refine isUnmarked_of_not_mem ?_
  intro hmem
  have hcolon : alphabet.continues ':' = false := Text.Alphabet.Lawful.not_continues ':' (by simp)
  exact Bool.false_ne_true (hcolon.symm.trans (Text.Alphabet.continues_of_mem h hmem))

end Name

namespace SymbolKind

/-- The name of a member with its case folded if names of the kind ignore it. -/
def foldMember (kind : SymbolKind) (m : String) : String :=
  if kind.ignoresCase then Text.foldCase m else m

theorem sameMember_iff {kind : SymbolKind} {m m' : String} :
    kind.sameMember m m' = true ↔ kind.foldMember m = kind.foldMember m' := by
  unfold sameMember foldMember
  cases kind.ignoresCase <;> simp [Text.sameFolded_iff]

theorem isUnmarked_foldMember (kind : SymbolKind) {m : String} (h : Name.IsUnmarked m) :
    Name.IsUnmarked (kind.foldMember m) := by
  unfold foldMember
  cases kind.ignoresCase
  · exact h
  · exact h.foldCase

end SymbolKind

theorem SymbolKey.fold_member (kind : SymbolKind) {m : String} (h : Name.IsUnmarked m)
    (owner : String) :
    fold kind (Name.member owner m) = Name.member (Name.key owner) (kind.foldMember m) := by
  unfold fold SymbolKind.foldMember
  cases kind.ignoresCase with
  | true => exact Name.key_member owner m
  | false =>
      simp only [Bool.false_eq_true, if_false, Name.relative_member, Name.splitLast?_member h]
      rfl

namespace Catalog

variable {c : Catalog} {kind : SymbolKind}

theorem lookup?_member_respelled (c : Catalog) {a b m m' : String} (hm : Name.IsUnmarked m)
    (hm' : Name.IsUnmarked m') (howner : Name.key a = Name.key b)
    (hmember : kind.sameMember m m' = true) :
    c.lookup? kind (Name.member a m) = c.lookup? kind (Name.member b m') := by
  unfold lookup? SymbolKey.ofName
  rw [SymbolKey.fold_member kind hm, SymbolKey.fold_member kind hm', howner,
    SymbolKind.sameMember_iff.1 hmember]

theorem findMember?_respelled (c : Catalog) {a b m m' : String} (hm : Name.IsUnmarked m)
    (hm' : Name.IsUnmarked m') (howner : Name.key a = Name.key b)
    (hmember : kind.sameMember m m' = true) :
    c.findMember? a m kind = c.findMember? b m' kind := by
  have hlookup : ∀ name, c.lookup? kind (Name.member name m) =
      c.lookup? kind (Name.member name m') :=
    fun name => c.lookup?_member_respelled hm hm' rfl hmember
  unfold findMember?
  rw [c.lookup?_member_respelled hm hm' howner hmember, c.keyed_ancestors a b howner]
  simp only [hlookup]

theorem isSameOrAncestor_congr (c : Catalog) {a b : String} (h : Name.key a = Name.key b)
    (name : String) : c.isSameOrAncestor a name = c.isSameOrAncestor b name := by
  unfold isSameOrAncestor Ancestors.contains Name.same
  rw [h]

/-- A member is found on the owner that its qualified name spells. -/
theorem findMember?_owner (hc : c.Owned) {name m owner own : String} (hm : Name.IsUnmarked m)
    {s : Symbol} (h : c.findMember? name m kind = some s)
    (howner : Text.splitLast? Name.memberMark s.qualifiedName = some (owner, own)) :
    c.findMember? owner m kind = some s := by
  obtain ⟨holder, hfound⟩ := exists_lookup?_of_findMember? h
  obtain ⟨hname, hown⟩ := Name.eq_member_of_splitLast? howner
  obtain ⟨_, hfold⟩ := hc.fold_eq_of_lookup? hfound
  have hkey : Name.key holder = Name.key owner := by
    rw [hname, SymbolKey.fold_member kind hown, SymbolKey.fold_member kind hm] at hfold
    have hmembers := kind.isUnmarked_foldMember hm
    exact ((kind.isUnmarked_foldMember hown).member_inj hmembers hfold).1.symm
  have hlookup : c.lookup? kind (Name.member owner m) = some s := by
    rw [← hfound]
    exact (c.lookup?_member_respelled hm hm hkey (SymbolKind.sameMember_iff.2 rfl)).symm
  rw [findMember?, hlookup]

end Catalog
end CrossReference
