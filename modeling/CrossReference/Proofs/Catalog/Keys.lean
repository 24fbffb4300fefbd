import CrossReference.Proofs.Catalog.Members

/-!
# Keys and equality of names

A name is cut into a front and its own part, which follows the last member mark, or the last
separator if there is no mark. Folding lowers the front, and the own part as far as the kind ignores
case. A cut does not look at the case of letters, so a folded name is cut where the name is cut.
That makes folding idempotent, and it makes two keys equal exactly when the names are equal up to
case and their own parts are equal as the kind compares them.

* `Name.cutOwn` is the cut, and `Name.cutOwn_map_toLower` says that it ignores case.
* `SymbolKey.fold_eq` reads a folded name off the cut, and `SymbolKey.cut_fold` cuts a folded name.
* `SymbolKey.fold_eq_fold_iff` compares keys.
* `Catalog.keys_agree_with_equality` draws the conclusions for every catalog.
-/

namespace CrossReference

namespace Text

/-- The texts have the same letters, character by character and up to case. -/
def SameLetters (a b : String) : Prop :=
  List.Forall₂ (fun x y : Char => x.toLower = y.toLower) a.toList b.toList

theorem sameLetters_iff {a b : String} : SameLetters a b ↔ foldCase a = foldCase b := by
  rw [← String.toList_inj, toList_foldCase, toList_foldCase, ← List.forall₂_eq_eq_eq,
    List.forall₂_map_left_iff, List.forall₂_map_right_iff]
  rfl

/-- The characters up to the end of the last occurrence of `sep`, and those after it. -/
def cutAfterLast? (sep cs : List Char) : Option (List Char × List Char) :=
  (cutLast? sep cs).map fun (before, after) => (before ++ sep, after)

theorem append_of_cutAfterLast? {sep cs : List Char} {parts : List Char × List Char}
    (h : cutAfterLast? sep cs = some parts) : parts.1 ++ parts.2 = cs := by
  obtain ⟨⟨before, after⟩, hcut, rfl⟩ := Option.map_eq_some_iff.1 h
  exact (eq_append_of_cutLast? hcut).symm

theorem Caseless.map_toLower {sep : List Char} (hsep : Caseless sep) :
    sep.map Char.toLower = sep := by
  have hall : ∀ x ∈ sep, x.toLower = x := fun x hx => (hsep.toLower_eq_iff hx x).2 rfl
  rw [List.map_congr_left hall, List.map_id']

theorem cutAfterLast?_map_toLower {sep : List Char} (hsep : Caseless sep) (cs : List Char) :
    cutAfterLast? sep (cs.map Char.toLower) = (cutAfterLast? sep cs).map foldParts := by
  unfold cutAfterLast?
  rw [cutLast?_map_toLower hsep, Option.map_map, Option.map_map]
  refine congrArg (Option.map · _) (funext fun parts => ?_)
  simp [foldParts, hsep.map_toLower]

end Text

namespace Name

/-! ## The own part of a name -/

/-- What stands before the own part of a name, and the own part. -/
def cutOwn (cs : List Char) : List Char × List Char :=
  ((Text.cutAfterLast? memberMark.toList cs).or (Text.cutAfterLast? [separator] cs)).getD ([], cs)

theorem cutOwn_of_mark {cs before after : List Char}
    (h : Text.cutLast? memberMark.toList cs = some (before, after)) :
    cutOwn cs = (before ++ memberMark.toList, after) := by
  rw [cutOwn, Text.cutAfterLast?, h]
  rfl

theorem cutOwn_of_separator {cs before after : List Char}
    (hmark : Text.cutLast? memberMark.toList cs = none)
    (h : Text.cutLast? [separator] cs = some (before, after)) :
    cutOwn cs = (before ++ [separator], after) := by
  rw [cutOwn, Text.cutAfterLast?, Text.cutAfterLast?, hmark, h]
  rfl

theorem cutOwn_of_plain {cs : List Char} (hmark : Text.cutLast? memberMark.toList cs = none)
    (h : Text.cutLast? [separator] cs = none) : cutOwn cs = ([], cs) := by
  rw [cutOwn, Text.cutAfterLast?, Text.cutAfterLast?, hmark, h]
  rfl

theorem append_cutOwn (cs : List Char) : (cutOwn cs).1 ++ (cutOwn cs).2 = cs := by
  unfold cutOwn
  cases hmark : Text.cutAfterLast? memberMark.toList cs with
  | some parts => exact Text.append_of_cutAfterLast? hmark
  | none =>
      cases hseparator : Text.cutAfterLast? [separator] cs with
      | some parts => exact Text.append_of_cutAfterLast? hseparator
      | none => rfl

/-- Where a name is cut does not depend on the case of its letters. -/
theorem cutOwn_map_toLower (cs : List Char) :
    cutOwn (cs.map Char.toLower) = Text.foldParts (cutOwn cs) := by
  unfold cutOwn
  rw [Text.cutAfterLast?_map_toLower caseless_memberMark,
    Text.cutAfterLast?_map_toLower caseless_separator]
  cases Text.cutAfterLast? memberMark.toList cs with
  | some parts => rfl
  | none =>
      cases Text.cutAfterLast? [separator] cs with
      | some parts => rfl
      | none => rfl

/-- What stands before the own part of a name. -/
def front (name : String) : String :=
  String.ofList (cutOwn (relative name).toList).1

/-- The part of a name that keeps its case if it is the name of a property or a constant. -/
def own (name : String) : String :=
  String.ofList (cutOwn (relative name).toList).2

theorem front_append_own (name : String) : front name ++ own name = relative name := by
  apply String.toList_inj.1
  simp only [front, own, String.toList_append, String.toList_ofList, append_cutOwn]

theorem key_eq (name : String) :
    key name = Text.foldCase (front name) ++ Text.foldCase (own name) := by
  rw [← Text.foldCase_append, front_append_own]
  rfl

theorem relative_key (name : String) : relative (key name) = key name := by
  unfold key
  rw [relative, Text.trimStart_foldCase ignoresCase_isSeparator]
  exact congrArg Text.foldCase (relative_relative name)

/-- A text that is the key of a name up to case has no leading separators to lose. -/
theorem relative_of_foldCase {name text : String} (h : Text.foldCase text = key name) :
    relative text = text := by
  have hfold : Text.foldCase (relative text) = Text.foldCase text := by
    rw [relative, ← Text.trimStart_foldCase ignoresCase_isSeparator, h]
    exact relative_key name
  have hsuffix : (relative text).toList <:+ text.toList := by
    rw [toList_relative]
    exact List.dropWhile_suffix isSeparator
  refine String.toList_inj.1 (hsuffix.eq_of_length ?_)
  simpa using congrArg (fun s : String => s.toList.length) hfold

/-- A text that is the key of a name up to case is cut where the name is. -/
theorem cut_of_foldCase {name before after : String}
    (h : Text.foldCase (before ++ after) = key name)
    (hlength : before.toList.length = (front name).toList.length) :
    front (before ++ after) = before ∧ own (before ++ after) = after := by
  have hlower : (before ++ after).toList.map Char.toLower =
      (relative name).toList.map Char.toLower := by
    have htext := congrArg String.toList h
    rwa [key, Text.toList_foldCase, Text.toList_foldCase] at htext
  -- Both are cut after as many characters as their folded text is.
  have hcuts : (cutOwn (before ++ after).toList).1.length = before.toList.length := by
    have hparts := congrArg (fun cs => (cutOwn cs).1.length) hlower
    simp only [cutOwn_map_toLower, Text.foldParts, List.length_map] at hparts
    rw [hparts, hlength, front, String.toList_ofList]
  have happend := append_cutOwn (before ++ after).toList
  rw [String.toList_append] at happend hcuts
  obtain ⟨hbefore, hafter⟩ := List.append_inj happend hcuts
  unfold front own
  rw [relative_of_foldCase h, String.toList_append, hbefore, hafter]
  exact ⟨String.ofList_toList, String.ofList_toList⟩

theorem exists_own_member (m : String) : ∃ part, ∀ owner, own (member owner m) = part := by
  obtain ⟨⟨before, after⟩, hcut⟩ :=
    Text.exists_cutLast? (show memberMark.toList ≠ [] by decide) m.toList
  refine ⟨String.ofList after, fun owner => ?_⟩
  have hname := Text.cutLast?_append_of_some hcut (relative owner).toList
  rw [← List.append_assoc, ← toList_member, ← relative_member] at hname
  rw [own, cutOwn_of_mark hname]

end Name

namespace SymbolKind

theorem foldMember_foldMember (kind : SymbolKind) (m : String) :
    kind.foldMember (kind.foldMember m) = kind.foldMember m := by
  unfold foldMember
  cases kind.ignoresCase <;> simp

theorem foldCase_foldMember (kind : SymbolKind) (m : String) :
    Text.foldCase (kind.foldMember m) = Text.foldCase m := by
  unfold foldMember
  cases kind.ignoresCase <;> simp

end SymbolKind

namespace SymbolKey

/-! ## Folded names -/

/-- Folding lowers the front of a name, and its own part as far as the kind ignores case. -/
theorem fold_eq (kind : SymbolKind) (name : String) :
    fold kind name = Text.foldCase (Name.front name) ++ kind.foldMember (Name.own name) := by
  unfold fold SymbolKind.foldMember
  cases kind.ignoresCase with
  | true => exact Name.key_eq name
  | false =>
      simp only [Bool.false_eq_true, if_false, Text.splitLast?, String.toList_ofList]
      cases hmark : Text.cutLast? Name.memberMark.toList (Name.relative name).toList with
      | some parts =>
          rw [Name.front, Name.own, Name.cutOwn_of_mark hmark, String.ofList_append,
            Text.foldCase_append]
          rfl
      | none =>
          cases hseparator : Text.cutLast? [Name.separator] (Name.relative name).toList with
          | some parts =>
              rw [Name.front, Name.own, Name.cutOwn_of_separator hmark hseparator,
                String.ofList_append, Text.foldCase_append]
              rfl
          | none =>
              rw [Name.front, Name.own, Name.cutOwn_of_plain hmark hseparator,
                String.ofList_toList]
              rfl

theorem foldCase_fold (kind : SymbolKind) (name : String) :
    Text.foldCase (fold kind name) = Name.key name := by
  rw [fold_eq, Text.foldCase_append, Text.foldCase_foldCase, kind.foldCase_foldMember,
    ← Name.key_eq]

/-- A folded name is cut where the name is. -/
theorem cut_fold (kind : SymbolKind) (name : String) :
    Name.front (fold kind name) = Text.foldCase (Name.front name) ∧
      Name.own (fold kind name) = kind.foldMember (Name.own name) := by
  have hfold := foldCase_fold kind name
  rw [fold_eq] at hfold ⊢
  exact Name.cut_of_foldCase hfold (by rw [Text.toList_foldCase, List.length_map])

/-- Folding twice is folding once. -/
theorem fold_fold (kind : SymbolKind) (name : String) :
    fold kind (fold kind name) = fold kind name := by
  obtain ⟨hfront, hown⟩ := cut_fold kind name
  rw [fold_eq kind (fold kind name), hfront, hown, Text.foldCase_foldCase,
    kind.foldMember_foldMember, ← fold_eq]

/-- Of three colons in a row the last two are the mark. -/
example : fold .constant "\\App\\Widget:::MAX" = "app\\widget:::MAX" := by decide +kernel

/-- Names have one key if they are equal up to case and leading separators, and their own parts are
equal as the kind compares them. -/
theorem fold_eq_fold_iff {kind : SymbolKind} {a b : String} :
    fold kind a = fold kind b ↔
      Name.same a b = true ∧ kind.sameMember (Name.own a) (Name.own b) = true := by
  rw [Name.same_iff, SymbolKind.sameMember_iff]
  constructor
  · intro h
    refine ⟨?_, ?_⟩
    · rw [← foldCase_fold kind a, h, foldCase_fold]
    · rw [← (cut_fold kind a).2, h, (cut_fold kind b).2]
  · rintro ⟨hkey, hown⟩
    -- The key of a name is its name folded as a function's.
    have hfront : Text.foldCase (Name.front a) = Text.foldCase (Name.front b) := by
      rw [← (cut_fold .function a).1, ← (cut_fold .function b).1]
      exact congrArg Name.front hkey
    rw [fold_eq, fold_eq, hfront, hown]

theorem fold_eq_fold_of_ignoresCase {kind : SymbolKind} (hkind : kind.ignoresCase = true)
    {a b : String} : fold kind a = fold kind b ↔ Name.same a b = true := by
  unfold fold
  rw [if_pos hkind, if_pos hkind, Name.same_iff]

/-- The spelling of the owner, and that of the member as far as its kind ignores case, do not
matter. -/
theorem fold_member_respelled {kind : SymbolKind} {a b m m' : String}
    (howner : Name.same a b = true) (hmember : kind.sameMember m m' = true) :
    fold kind (Name.member a m) = fold kind (Name.member b m') := by
  rw [Name.same_iff] at howner
  cases hkind : kind.ignoresCase with
  | true =>
      rw [fold_eq_fold_of_ignoresCase hkind, Name.same_iff, Name.key_member, Name.key_member,
        howner, ← kind.foldCase_foldMember m, SymbolKind.sameMember_iff.1 hmember,
        kind.foldCase_foldMember]
  | false =>
      obtain rfl : m = m' := by simpa [SymbolKind.sameMember, hkind] using hmember
      obtain ⟨part, hpart⟩ := Name.exists_own_member m
      rw [fold_eq_fold_iff, Name.same_iff, Name.key_member, Name.key_member, howner, hpart, hpart,
        SymbolKind.sameMember_iff]
      exact ⟨rfl, rfl⟩

theorem ofName_eq_ofName_iff {kind : SymbolKind} {a b : String} :
    ofName kind a = ofName kind b ↔ fold kind a = fold kind b := by
  simp [ofName]

end SymbolKey

theorem Name.same_iff_sameLetters {a b : String} :
    Name.same a b = true ↔ Text.SameLetters (Name.relative a) (Name.relative b) := by
  rw [Name.same_iff, Text.sameLetters_iff]
  rfl

theorem NameKind.sameName_constant_iff {a b : String} :
    NameKind.constant.sameName a b = true ↔ Name.same a b = true ∧ Name.own a = Name.own b := by
  have hown : SymbolKind.constant.sameMember (Name.own a) (Name.own b) = true ↔
      Name.own a = Name.own b := beq_iff_eq
  rw [← hown, ← SymbolKey.fold_eq_fold_iff]
  exact beq_iff_eq

namespace Catalog

theorem lookup?_congr (c : Catalog) {kind : SymbolKind} {a b : String}
    (h : SymbolKey.fold kind a = SymbolKey.fold kind b) : c.lookup? kind a = c.lookup? kind b := by
  unfold lookup?
  rw [SymbolKey.ofName_eq_ofName_iff.2 h]

theorem Owned.lookup?_qualifiedName {c : Catalog} (hc : c.Owned) {s : Symbol}
    (h : s ∈ c.symbols.values) : c.lookup? s.kind s.qualifiedName = some s := by
  obtain ⟨key, hfound⟩ := OrderedMap.mem_values_iff.1 h
  obtain rfl : s.key = key := hc.key_eq key s hfound
  exact hfound

/-- Folding a name is idempotent. Types and functions have one key if their names have the same
letters up to case, and constants if besides their own parts are spelled alike. So after any changes
a lookup does not tell names apart that are compared as equal, whether they are names of types,
functions, constants or members, and every symbol is found under its own qualified name. -/
theorem keys_agree_with_equality (changes : List Change) :
    let c := after changes
    (∀ kind name, SymbolKey.fold kind (SymbolKey.fold kind name) = SymbolKey.fold kind name) ∧
    (∀ kind a b, kind.isType = true ∨ kind = .function →
      (SymbolKey.ofName kind a = .ofName kind b ↔ Name.same a b = true)) ∧
    (∀ a b, SymbolKey.ofName .constant a = .ofName .constant b ↔
      NameKind.constant.sameName a b = true) ∧
    (∀ a b, Name.same a b = true ↔ Text.SameLetters (Name.relative a) (Name.relative b)) ∧
    (∀ a b, NameKind.constant.sameName a b = true ↔
      Name.same a b = true ∧ Name.own a = Name.own b) ∧
    (∀ a b, Name.same a b = true → c.lookupType? a = c.lookupType? b ∧
      ∀ kind, kind.isType = true ∨ kind = .function → c.lookup? kind a = c.lookup? kind b) ∧
    (∀ a b, NameKind.constant.sameName a b = true →
      c.lookup? .constant a = c.lookup? .constant b) ∧
    (∀ kind owner owner' m m', Name.same owner owner' = true → kind.sameMember m m' = true →
      c.lookup? kind (Name.member owner m) = c.lookup? kind (Name.member owner' m')) ∧
    ∀ s ∈ c.symbols.values, c.lookup? s.kind s.qualifiedName = some s := by
  intro c
  have hignores : ∀ kind : SymbolKind, kind.isType = true ∨ kind = .function →
      kind.ignoresCase = true := by
    rintro kind (htype | rfl)
    · cases kind with
      | type => rfl
      | _ => exact absurd htype Bool.false_ne_true
    · rfl
  refine ⟨SymbolKey.fold_fold, ?_, ?_, fun _ _ => Name.same_iff_sameLetters,
    fun _ _ => NameKind.sameName_constant_iff, ?_, ?_, ?_, ?_⟩
  · intro kind a b hkind
    rw [SymbolKey.ofName_eq_ofName_iff, SymbolKey.fold_eq_fold_of_ignoresCase (hignores kind hkind)]
  · intro a b
    rw [SymbolKey.ofName_eq_ofName_iff]
    exact beq_iff_eq.symm
  · intro a b hsame
    refine ⟨c.keyed_lookupType? a b (Name.same_iff.1 hsame), fun kind hkind => ?_⟩
    exact c.lookup?_congr ((SymbolKey.fold_eq_fold_of_ignoresCase (hignores kind hkind)).2 hsame)
  · intro a b hsame
    exact c.lookup?_congr (beq_iff_eq.1 hsame)
  · intro kind owner owner' m m' howner hmember
    exact c.lookup?_congr (SymbolKey.fold_member_respelled howner hmember)
  · intro s hs
    exact (owned_after changes).lookup?_qualifiedName hs

end Catalog
end CrossReference
