import CrossReference.Proofs.Catalog.Members
import CrossReference.Query.Basic

/-!
# Query strings in another case

A query string is cut at marks that are no letters, and what stands between them is checked to be
made of identifiers. So the string in another case asks for the same, with its names in that case.
Which type an owner stands for does not depend on its case either: it is looked up by its key, and a
short name is compared with the last parts of the types up to case.

* `ParsedQuery.parse_foldCase` reads a folded query string.
* `Query.bindOwner_cases` compares what two spellings of an owner are bound to.
-/

namespace CrossReference

open Text (foldCase)

namespace Name

/-- Names that differ only in case have one key. -/
theorem key_eq_of_foldCase_eq {a b : String} (h : foldCase a = foldCase b) : key a = key b := by
  unfold key relative
  rw [← Text.trimStart_foldCase ignoresCase_isSeparator, h,
    Text.trimStart_foldCase ignoresCase_isSeparator]

theorem foldCase_lastPart (name : String) :
    foldCase (lastPart name) = lastPart (foldCase name) := by
  unfold lastPart
  rw [Text.toList_foldCase, Text.cutLast?_map_toLower caseless_separator]
  cases Text.cutLast? [separator] name.toList with
  | none => rfl
  | some parts => exact Text.foldCase_ofList parts.2

theorem isQualified_foldCase (name : String) : isQualified (foldCase name) = isQualified name := by
  have hcomp : isSeparator ∘ Char.toLower = isSeparator := funext ignoresCase_isSeparator
  unfold isQualified
  rw [Text.toList_foldCase, List.any_map, hcomp]

end Name

namespace ParsedQuery

/-- A parsed query with its names folded. -/
def folded : ParsedQuery → ParsedQuery
  | plain name => plain (foldCase name)
  | function name => function (foldCase name)
  | member owner name kind => member (foldCase owner) (foldCase name) kind

variable {alphabet : Text.Alphabet}

/-- A name that is read is the trimmed text, without a separator at its start, and all its parts are
identifiers. -/
theorem readName_eq_ok_iff {raw name : String} :
    readName alphabet raw = .ok name ↔ Text.trimBlanks raw ≠ "" ∧
      name = (Text.stripStart? (String.ofList [Name.separator]) (Text.trimBlanks raw)).getD
        (Text.trimBlanks raw) ∧
      (Text.pieces Name.separator name.toList).all alphabet.isIdentifier = true := by
  simp only [readName]
  by_cases hempty : Text.trimBlanks raw = ""
  · simp [hempty]
  · rw [if_neg hempty]
    generalize (Text.stripStart? (String.ofList [Name.separator]) (Text.trimBlanks raw)).getD
      (Text.trimBlanks raw) = found
    by_cases hparts : (Text.pieces Name.separator found.toList).all alphabet.isIdentifier = true
    · rw [if_pos hparts]
      constructor
      · intro h
        obtain rfl := Except.ok.inj h
        exact ⟨hempty, rfl, hparts⟩
      · rintro ⟨_, rfl, _⟩
        rfl
    · rw [if_neg hparts]
      constructor
      · intro h
        exact absurd h (by simp)
      · rintro ⟨_, rfl, hparts'⟩
        exact absurd hparts' hparts

/-- What is read after the member mark is an identifier, with the kind that its marks tell. -/
theorem readMember_eq_ok_iff {owner raw : String} {p : ParsedQuery} :
    readMember alphabet owner raw = .ok p ↔
      ∃ name kind, readMarks (Text.trimBlanks raw) = (name, kind) ∧
        alphabet.isIdentifier name.toList = true ∧ Text.sameFolded name "class" = false ∧
        p = .member owner name kind := by
  simp only [readMember]
  obtain ⟨name, kind⟩ := readMarks (Text.trimBlanks raw)
  by_cases hempty : name = ""
  · simp [hempty, Text.Alphabet.isIdentifier]
  · rw [if_neg hempty]
    by_cases hname : (alphabet.isIdentifier name.toList && !Text.sameFolded name "class") = true
    · rw [if_pos hname]
      rw [Bool.and_eq_true, Bool.not_eq_true'] at hname
      constructor
      · intro h
        exact ⟨name, kind, rfl, hname.1, hname.2, (Except.ok.inj h).symm⟩
      · rintro ⟨_, _, heq, _, _, rfl⟩
        obtain ⟨rfl, rfl⟩ := Prod.mk.inj heq
        rfl
    · rw [if_neg hname]
      rw [Bool.and_eq_true, Bool.not_eq_true'] at hname
      constructor
      · intro h
        exact absurd h (by simp)
      · rintro ⟨_, _, heq, hidentifier, hclass, _⟩
        obtain ⟨rfl, rfl⟩ := Prod.mk.inj heq
        exact absurd ⟨hidentifier, hclass⟩ hname

theorem exists_readName_of_map {raw : String} {p : ParsedQuery} {make : String → ParsedQuery}
    (h : (readName alphabet raw).map make = .ok p) :
    ∃ name, readName alphabet raw = .ok name ∧ p = make name := by
  cases hname : readName alphabet raw with
  | error e =>
      rw [hname] at h
      exact absurd h (by simp [Except.map])
  | ok name =>
      rw [hname] at h
      exact ⟨name, rfl, (Except.ok.inj h).symm⟩

theorem readMarks_foldCase (raw : String) :
    readMarks (foldCase raw) = (foldCase (readMarks raw).1, (readMarks raw).2) := by
  unfold readMarks
  rw [Text.stripStart?_foldCase (Text.caseless_of_capitals (by decide)),
    Text.stripEnd?_foldCase (Text.caseless_of_capitals (by decide))]
  cases Text.stripStart? "$" raw with
  | some name => rfl
  | none => cases Text.stripEnd? "()" raw <;> rfl

/-! ## Reading in another case -/

section Lawful

variable [alphabet.Lawful]

theorem readName_foldCase {raw name : String} (h : readName alphabet raw = .ok name) :
    readName alphabet (foldCase raw) = .ok (foldCase name) := by
  obtain ⟨hempty, hname, hparts⟩ := readName_eq_ok_iff.1 h
  have hcomp : alphabet.isIdentifier ∘ List.map Char.toLower = alphabet.isIdentifier :=
    funext Text.Alphabet.isIdentifier_map_toLower
  refine readName_eq_ok_iff.2 ⟨?_, ?_, ?_⟩
  · rwa [Text.trimBlanks_foldCase, ne_eq, Text.foldCase_eq_empty_iff]
  · rw [Text.trimBlanks_foldCase,
      Text.stripStart?_foldCase (by simpa using Name.caseless_separator), Option.getD_map, hname]
  · rwa [Text.toList_foldCase, Text.pieces_map_toLower Name.caseless_separator, List.all_map, hcomp]

theorem readMember_foldCase {owner raw : String} {p : ParsedQuery}
    (h : readMember alphabet owner raw = .ok p) :
    readMember alphabet (foldCase owner) (foldCase raw) = .ok p.folded := by
  obtain ⟨name, kind, hmarks, hidentifier, hclass, rfl⟩ := readMember_eq_ok_iff.1 h
  refine readMember_eq_ok_iff.2 ⟨foldCase name, kind, ?_, ?_, ?_, rfl⟩
  · rw [Text.trimBlanks_foldCase, readMarks_foldCase, hmarks]
  · exact (Text.Alphabet.isIdentifier_foldCase name).trans hidentifier
  · have hfold : Text.sameFolded (foldCase name) "class" = Text.sameFolded name "class" := by
      unfold Text.sameFolded
      rw [Text.foldCase_foldCase]
    exact hfold.trans hclass

theorem map_readName_foldCase {raw : String} {p : ParsedQuery} {make : String → ParsedQuery}
    (hmake : ∀ name, (make name).folded = make (foldCase name))
    (h : (readName alphabet raw).map make = .ok p) :
    (readName alphabet (foldCase raw)).map make = .ok p.folded := by
  obtain ⟨name, hname, rfl⟩ := exists_readName_of_map h
  rw [readName_foldCase hname, hmake]
  rfl

/-- A folded query string asks for the folded names. -/
theorem parse_foldCase {raw : String} {p : ParsedQuery} (h : parse alphabet raw = .ok p) :
    parse alphabet (foldCase raw) = .ok p.folded := by
  simp only [parse] at h ⊢
  rw [Text.trimBlanks_foldCase, Text.splitFirst?_foldCase Name.caseless_memberMark,
    Text.stripEnd?_foldCase (Text.caseless_of_capitals (by decide))]
  by_cases hempty : Text.trimBlanks raw = ""
  · rw [if_pos hempty] at h
    exact absurd h (by simp)
  · rw [if_neg hempty] at h
    rw [if_neg (mt Text.foldCase_eq_empty_iff.1 hempty)]
    cases hsplit : Text.splitFirst? Name.memberMark (Text.trimBlanks raw) with
    | some parts =>
        obtain ⟨before, after⟩ := parts
        simp only [hsplit] at h
        cases howner : readName alphabet before with
        | error e =>
            rw [howner] at h
            exact absurd h (by simp)
        | ok owner =>
            rw [howner] at h
            simp only [Option.map_some, readName_foldCase howner]
            exact readMember_foldCase h
    | none =>
        simp only [hsplit] at h
        simp only [Option.map_none]
        cases hcall : Text.stripEnd? "()" (Text.trimBlanks raw) with
        | some rest =>
            rw [hcall] at h
            exact map_readName_foldCase (fun _ => rfl) h
        | none =>
            rw [hcall] at h
            exact map_readName_foldCase (fun _ => rfl) h

end Lawful

end ParsedQuery

namespace Query

theorem bind_member (c : Catalog) (owner name : String) (kind : SymbolKind) :
    bind c (.member owner name (some kind)) = .member (bindOwner c owner) name kind :=
  rfl

theorem uniqueType?_congr (c : Catalog) {a b : String} (h : foldCase a = foldCase b) :
    uniqueType? c a = uniqueType? c b := by
  have hnamed : c.typesNamed a = c.typesNamed b := by
    unfold Catalog.typesNamed Text.sameFolded
    rw [h]
  have hqualified : Name.isQualified a = Name.isQualified b := by
    rw [← Name.isQualified_foldCase, h, Name.isQualified_foldCase]
  unfold uniqueType?
  rw [hnamed, hqualified]

/-- Two spellings of an owner are bound to one type, or neither is found and both stay as they
are. -/
theorem bindOwner_cases (c : Catalog) {a b : String} (h : foldCase a = foldCase b) :
    bindOwner c a = bindOwner c b ∨
      (bindOwner c a = a ∧ bindOwner c b = b ∧ c.hasType a = false ∧ c.hasType b = false) := by
  have hlookup := c.keyed_lookupType? a b (Name.key_eq_of_foldCase_eq h)
  have hunique := uniqueType?_congr c h
  unfold bindOwner Catalog.hasType
  rw [← hlookup, ← hunique]
  cases c.lookupType? a with
  | some s => exact .inl rfl
  | none =>
      cases uniqueType? c a with
      | some type => exact .inl rfl
      | none => exact .inr ⟨rfl, rfl, rfl, rfl⟩

end Query
end CrossReference
