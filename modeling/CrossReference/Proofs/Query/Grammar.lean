import CrossReference.Proofs.Query.Case
import CrossReference.Proofs.Text.Assembly

/-!
# The grammar of query strings

Which strings are queries, and what each of them asks for. The grammar puts query strings together
from identifiers, separators, marks and blanks; reading a query takes these parts off again, by
trimming and by cutting at marks. Both agree since no character of an identifier is a blank, a
separator or a part of a mark. This holds for every lawful alphabet of identifiers.

* `Text.Alphabet.Identifier`, `Name.Proper`, `ParsedQuery.NameText`, `ParsedQuery.MemberText` and
  `ParsedQuery.Spells` are the grammar.
* `Name.proper_iff` and `ParsedQuery.readName_eq_ok_iff_padded` say how names are read,
  `ParsedQuery.readMarks_eq_iff` how the name of a member is.
* `ParsedQuery.parse_eq_ok_iff_padded` is the result for every string and lawful alphabet;
  `ParsedQuery.parse_accepts_exactly_grammar` is the case of the Unicode tables.
-/

namespace CrossReference

/-! ## The grammar -/

namespace Text

/-- An identifier: an underscore or a character that may begin one, then characters that may
continue one. -/
def Alphabet.Identifier (alphabet : Alphabet) (word : String) : Prop :=
  ∃ first rest, word.toList = first :: rest ∧ (first = '_' ∨ alphabet.starts first = true) ∧
    ∀ c ∈ rest, alphabet.continues c = true

/-- Blanks, or nothing. -/
def Blanks (s : String) : Prop :=
  ∀ c ∈ s.toList, isBlank c = true

/-- A text with `P`, and blanks around it. -/
def Padded (P : String → Prop) (s : String) : Prop :=
  ∃ before text after, Blanks before ∧ Blanks after ∧ s = before ++ text ++ after ∧ P text

end Text

open Text (Alphabet Blanks Padded)

/-- A name that is made of identifiers with single separators between them. -/
inductive Name.Proper (alphabet : Alphabet) : String → Prop where
  | single {word : String} (h : alphabet.Identifier word) : Proper alphabet word
  | join {word rest : String} (h : alphabet.Identifier word) (hrest : Proper alphabet rest) :
      Proper alphabet (join word rest)

namespace ParsedQuery

/-- A proper name, after a separator or not. -/
structure NameText (alphabet : Alphabet) (text name : String) : Prop where
  proper : Name.Proper alphabet name
  eq : text = name ∨ text = String.ofList [Name.separator] ++ name

/-- How a member is written, and the kind that this tells. -/
inductive MemberText : String → String → Option SymbolKind → Prop where
  | property (name : String) : MemberText ("$" ++ name) name (some .property)
  | method (name : String) : MemberText (name ++ "()") name (some .method)
  | unmarked (name : String) : MemberText name name none

/-- What a query string without blanks around it asks for. -/
inductive Spells (alphabet : Alphabet) : String → ParsedQuery → Prop where
  | plain {text name : String} (hname : NameText alphabet text name) :
      Spells alphabet text (.plain name)
  | function {text name gap : String} (hname : NameText alphabet text name) (hgap : Blanks gap) :
      Spells alphabet (text ++ gap ++ "()") (.function name)
  | member {text owner gap gap' member name : String} {kind : Option SymbolKind}
      (howner : NameText alphabet text owner) (hgap : Blanks gap) (hgap' : Blanks gap')
      (hmember : MemberText member name kind) (hname : alphabet.Identifier name)
      (hclass : Text.sameFolded name "class" = false) :
      Spells alphabet (text ++ gap ++ "::" ++ gap' ++ member) (.member owner name kind)

end ParsedQuery

/-! ## Characters of names -/

variable {alphabet : Alphabet}

theorem Text.Alphabet.isIdentifier_iff {word : String} :
    alphabet.isIdentifier word.toList = true ↔ alphabet.Identifier word := by
  unfold Identifier
  cases word.toList with
  | nil => simp [isIdentifier]
  | cons first rest => simp [isIdentifier]

theorem Text.Alphabet.Identifier.ne_empty {word : String} (h : alphabet.Identifier word) :
    word ≠ "" := by
  rintro rfl
  obtain ⟨first, rest, heq, _⟩ := h
  exact absurd heq (by simp)

theorem Name.Proper.ne_empty {name : String} (h : Name.Proper alphabet name) : name ≠ "" := by
  cases h with
  | single h => exact h.ne_empty
  | @join word rest _ _ =>
      intro hempty
      have hlist := congrArg String.toList hempty
      rw [toList_join] at hlist
      exact absurd hlist (by simp)

variable [alphabet.Lawful]

namespace Text.Alphabet

variable {word : String}

theorem Identifier.continues (h : alphabet.Identifier word) {c : Char} (hc : c ∈ word.toList) :
    alphabet.continues c = true :=
  continues_of_mem (isIdentifier_iff.2 h) hc

theorem Identifier.not_mem (h : alphabet.Identifier word) {c : Char}
    (hc : alphabet.continues c = false) : c ∉ word.toList := by
  intro hmem
  exact Bool.false_ne_true (hc.symm.trans (h.continues hmem))

/-- No text begins both with an identifier and with a character that is in none. -/
theorem Identifier.append_ne (h : alphabet.Identifier word) {c : Char}
    (hc : alphabet.continues c = false) (after rest : String) :
    word ++ after ≠ String.ofList [c] ++ rest := by
  intro heq
  obtain ⟨first, more, hfirst, _⟩ := id h
  have hlist := congrArg String.toList heq
  rw [String.toList_append, String.toList_append, String.toList_ofList, hfirst] at hlist
  have hmem : c ∈ word.toList := by
    rw [hfirst, (List.cons.inj hlist).1]
    exact List.mem_cons_self
  exact h.not_mem hc hmem

end Text.Alphabet

namespace Name

theorem separator_not_continues : alphabet.continues separator = false :=
  Alphabet.Lawful.not_continues separator (by simp)

theorem proper_iff {name : String} :
    Proper alphabet name ↔
      (Text.pieces separator name.toList).all alphabet.isIdentifier = true := by
  constructor
  · intro h
    induction h with
    | single h =>
        rw [Text.pieces_of_not_mem (h.not_mem separator_not_continues)]
        simpa using Alphabet.isIdentifier_iff.2 h
    | join h _ ih =>
        rw [toList_join, Text.pieces_append_cons (h.not_mem separator_not_continues), List.all_cons,
          Alphabet.isIdentifier_iff.2 h, ih]
        rfl
  · intro h
    generalize hpieces : Text.pieces separator name.toList = pieces at h
    induction pieces generalizing name with
    | nil => exact absurd hpieces (Text.pieces_ne_nil _ _)
    | cons piece others ih =>
        rw [List.all_cons, Bool.and_eq_true] at h
        have hpiece : alphabet.Identifier (String.ofList piece) :=
          Alphabet.isIdentifier_iff.1 (by simpa using h.1)
        rcases Text.pieces_cases hpieces with ⟨_, heq⟩ | ⟨rest, heq, hrest⟩
        · rw [← String.ofList_toList (s := name), heq]
          exact .single hpiece
        · have hname : name = join (String.ofList piece) (String.ofList rest) := by
            apply String.toList_inj.1
            rw [heq, toList_join, String.toList_ofList, String.toList_ofList]
          rw [hname]
          exact .join hpiece (ih (by rwa [String.toList_ofList]) h.2)

variable {name : String}

theorem Proper.continues_or_separator (h : Proper alphabet name) {c : Char} (hc : c ∈ name.toList) :
    alphabet.continues c = true ∨ c = separator := by
  induction h with
  | single h => exact .inl (h.continues hc)
  | join h _ ih =>
      rw [toList_join] at hc
      rcases List.mem_append.1 hc with hc | hc
      · exact .inl (h.continues hc)
      · rcases List.mem_cons.1 hc with rfl | hc
        · exact .inr rfl
        · exact ih hc

theorem Proper.not_mem (h : Proper alphabet name) {c : Char} (hc : alphabet.continues c = false)
    (hne : c ≠ separator) : c ∉ name.toList := by
  intro hmem
  rcases h.continues_or_separator hmem with hcontinues | heq
  · exact Bool.false_ne_true (hc.symm.trans hcontinues)
  · exact hne heq

/-- A proper name does not begin with a separator. -/
theorem Proper.ne_append (h : Proper alphabet name) (rest : String) :
    name ≠ String.ofList [separator] ++ rest := by
  cases h with
  | single h => simpa using h.append_ne separator_not_continues "" rest
  | join h _ =>
      unfold Name.join
      rw [String.append_assoc]
      exact h.append_ne separator_not_continues _ rest

end Name

/-! ## Blanks around a text -/

namespace Text

/-- A text that neither begins nor ends with a blank. -/
structure Trimmed (text : String) : Prop where
  ne_empty : text ≠ ""
  first : ∀ c ∈ text.toList.head?, isBlank c = false
  last : ∀ c ∈ text.toList.getLast?, isBlank c = false

theorem trimmed_of_solid {text : String} (hne : text ≠ "")
    (h : ∀ c ∈ text.toList, isBlank c = false) : Trimmed text where
  ne_empty := hne
  first := fun c hc => h c (List.mem_of_mem_head? hc)
  last := fun c hc => h c (List.mem_of_mem_getLast? hc)

theorem trimmed_of_any_eq_false {mark : String} (hne : mark ≠ "")
    (h : mark.toList.any isBlank = false) : Trimmed mark :=
  trimmed_of_solid hne fun c hc => Bool.eq_false_iff.2 (List.any_eq_false.1 h c hc)

theorem Trimmed.append {text text' : String} (h : Trimmed text) (h' : Trimmed text')
    (between : String) : Trimmed (text ++ between ++ text') := by
  have hnil : text.toList ≠ [] := mt String.toList_eq_nil_iff.1 h.ne_empty
  have hnil' : text'.toList ≠ [] := mt String.toList_eq_nil_iff.1 h'.ne_empty
  refine ⟨?_, ?_, ?_⟩
  · rw [ne_eq, ← String.toList_eq_nil_iff]
    simp [hnil]
  · rw [String.append_assoc, String.toList_append, List.head?_append_of_ne_nil _ hnil]
    exact h.first
  · rw [String.toList_append, List.getLast?_append_of_ne_nil _ hnil']
    exact h'.last

theorem blanks_empty : Blanks "" := by
  intro c hc
  exact absurd hc (by simp)

theorem Blanks.append {s t : String} (hs : Blanks s) (ht : Blanks t) : Blanks (s ++ t) := by
  intro c hc
  rw [String.toList_append, List.mem_append] at hc
  exact hc.elim (hs c) (ht c)

variable {P : String → Prop}

theorem exists_trimBlanks (s : String) : ∃ before after,
    Blanks before ∧ Blanks after ∧ s = before ++ trimBlanks s ++ after :=
  exists_trimBoth isBlank s

/-- Trimming finds the text between the blanks. -/
theorem padded_iff (hP : ∀ text, P text → Trimmed text) {s : String} :
    Padded P s ↔ P (trimBlanks s) := by
  constructor
  · rintro ⟨before, text, after, hbefore, hafter, rfl, htext⟩
    have htrim : trimBlanks (before ++ text ++ after) = text :=
      trimBoth_append hbefore hafter (hP text htext).ne_empty (hP text htext).first
        (hP text htext).last
    rwa [htrim]
  · intro h
    obtain ⟨before, after, hbefore, hafter, heq⟩ := exists_trimBlanks s
    exact ⟨before, trimBlanks s, after, hbefore, hafter, heq, h⟩

theorem Padded.of_trimBlanks {s : String} (h : Padded P (trimBlanks s)) : Padded P s := by
  obtain ⟨before, after, hbefore, hafter, hs⟩ := exists_trimBlanks s
  obtain ⟨before', text, after', hbefore', hafter', htrim, htext⟩ := h
  refine ⟨before ++ before', text, after' ++ after, hbefore.append hbefore', hafter'.append hafter,
    ?_, htext⟩
  rw [hs, htrim]
  simp only [String.append_assoc]

theorem padded_self {text : String} (h : P text) : Padded P text :=
  ⟨"", text, "", blanks_empty, blanks_empty, by simp, h⟩

end Text

/-! ## Reading the parts -/

namespace ParsedQuery

theorem NameText.not_blank {text name : String} (h : NameText alphabet text name) :
    ∀ c ∈ text.toList, Text.isBlank c = false := by
  have hseparator : Text.isBlank Name.separator = false := by decide
  have hname : ∀ c ∈ name.toList, Text.isBlank c = false := by
    intro c hc
    rcases h.proper.continues_or_separator hc with hcontinues | rfl
    · exact Alphabet.Lawful.not_isBlank _ hcontinues
    · exact hseparator
  rcases h.eq with rfl | rfl
  · exact hname
  · intro c hc
    rw [String.toList_append, String.toList_ofList, List.singleton_append] at hc
    rcases List.mem_cons.1 hc with rfl | hc
    · exact hseparator
    · exact hname c hc

theorem NameText.trimmed {text name : String} (h : NameText alphabet text name) :
    Text.Trimmed text := by
  refine Text.trimmed_of_solid ?_ h.not_blank
  rcases h.eq with rfl | rfl
  · exact h.proper.ne_empty
  · rw [ne_eq, ← String.toList_eq_nil_iff]
    simp

theorem MemberText.trimmed {text name : String} {kind : Option SymbolKind}
    (h : MemberText text name kind) (hname : alphabet.Identifier name) : Text.Trimmed text := by
  have hsolid : Text.Trimmed name :=
    Text.trimmed_of_solid hname.ne_empty
      fun c hc => Alphabet.Lawful.not_isBlank _ (hname.continues hc)
  cases h with
  | property =>
      have hmark : Text.Trimmed "$" := Text.trimmed_of_any_eq_false (by decide) (by decide)
      simpa using hmark.append hsolid ""
  | method =>
      have hmark : Text.Trimmed "()" := Text.trimmed_of_any_eq_false (by decide) (by decide)
      simpa using hsolid.append hmark ""
  | unmarked => exact hsolid

theorem Spells.trimmed {text : String} {p : ParsedQuery} (h : Spells alphabet text p) :
    Text.Trimmed text := by
  cases h with
  | plain hname => exact hname.trimmed
  | @function _ _ gap hname hgap =>
      exact hname.trimmed.append (Text.trimmed_of_any_eq_false (by decide) (by decide)) gap
  | @member _ _ gap gap' _ _ _ howner _ _ hmember hname _ =>
      simpa only [String.append_assoc] using
        howner.trimmed.append (hmember.trimmed hname) (gap ++ "::" ++ gap')

/-- A name is read if it is proper, with blanks around it and a separator before it or not. -/
theorem readName_eq_ok_iff_padded {raw name : String} :
    readName alphabet raw = .ok name ↔ Padded (NameText alphabet · name) raw := by
  rw [Text.padded_iff (fun _ h => h.trimmed), readName_eq_ok_iff, ← Name.proper_iff]
  constructor
  · rintro ⟨_, hname, hproper⟩
    refine ⟨hproper, ?_⟩
    cases hstrip : Text.stripStart? (String.ofList [Name.separator]) (Text.trimBlanks raw) with
    | some rest =>
        rw [hstrip] at hname
        exact .inr (hname ▸ Text.stripStart?_eq_some_iff.1 hstrip)
    | none =>
        rw [hstrip] at hname
        exact .inl hname.symm
  · intro h
    refine ⟨h.trimmed.ne_empty, ?_, h.proper⟩
    rcases h.eq with heq | heq
    · rw [heq, Text.stripStart?_eq_none_iff.2 h.proper.ne_append]
      rfl
    · rw [Text.stripStart?_eq_some_iff.2 heq]
      rfl

/-- The marks of a member tell its kind. -/
theorem readMarks_eq_iff {raw name : String} {kind : Option SymbolKind}
    (hname : alphabet.Identifier name) :
    readMarks raw = (name, kind) ↔ MemberText raw name kind := by
  have hdollar : ∀ after, Text.stripStart? "$" (name ++ after) = none := by
    intro after
    have hmark : alphabet.continues '$' = false := Alphabet.Lawful.not_continues '$' (by simp)
    exact Text.stripStart?_eq_none_iff.2 (hname.append_ne hmark after)
  have hcall : Text.stripEnd? "()" name = none :=
    Text.stripEnd?_eq_none (c := '(') (by decide)
      (hname.not_mem (Alphabet.Lawful.not_continues '(' (by simp)))
  unfold readMarks
  constructor
  · intro h
    cases hstart : Text.stripStart? "$" raw with
    | some rest =>
        rw [hstart] at h
        obtain ⟨rfl, rfl⟩ := Prod.mk.inj h
        rw [Text.stripStart?_eq_some_iff.1 hstart]
        exact .property rest
    | none =>
        cases hend : Text.stripEnd? "()" raw with
        | some rest =>
            rw [hstart, hend] at h
            obtain ⟨rfl, rfl⟩ := Prod.mk.inj h
            rw [Text.stripEnd?_eq_some_iff.1 hend]
            exact .method rest
        | none =>
            rw [hstart, hend] at h
            obtain ⟨rfl, rfl⟩ := Prod.mk.inj h
            exact .unmarked raw
  · intro h
    cases h with
    | property => rw [Text.stripStart?_eq_some_iff.2 rfl]
    | method => rw [hdollar, Text.stripEnd?_eq_some_iff.2 rfl]
    | unmarked =>
        have hstart := hdollar ""
        rw [String.append_empty] at hstart
        rw [hstart, hcall]

theorem readMember_eq_ok_iff_padded {owner raw : String} {p : ParsedQuery} :
    readMember alphabet owner raw = .ok p ↔ ∃ name kind, Padded (MemberText · name kind) raw ∧
      alphabet.Identifier name ∧ Text.sameFolded name "class" = false ∧
        p = .member owner name kind := by
  rw [readMember_eq_ok_iff]
  refine exists_congr fun name => exists_congr fun kind => ?_
  rw [Alphabet.isIdentifier_iff]
  constructor
  · rintro ⟨hmarks, hname, hrest⟩
    refine ⟨?_, hname, hrest⟩
    rw [Text.padded_iff (fun _ h => h.trimmed hname)]
    exact (readMarks_eq_iff hname).1 hmarks
  · rintro ⟨hpadded, hname, hrest⟩
    rw [Text.padded_iff (fun _ h => h.trimmed hname)] at hpadded
    exact ⟨(readMarks_eq_iff hname).2 hpadded, hname, hrest⟩

/-! ## Reading a query string -/

theorem Spells.padded_of_parse {raw : String} {p : ParsedQuery} (h : parse alphabet raw = .ok p) :
    Padded (Spells alphabet · p) raw := by
  refine Padded.of_trimBlanks ?_
  simp only [parse] at h
  generalize Text.trimBlanks raw = text at h
  split at h
  · exact absurd h (by simp)
  · split at h
    · rename_i before after hsplit
      split at h
      · rename_i owner howner
        obtain ⟨lead, text', gap, hlead, hgap, rfl, hname⟩ := readName_eq_ok_iff_padded.1 howner
        obtain ⟨name, kind, ⟨gap', member, tail, hgap', htail, rfl, hmember⟩, hidentifier, hclass,
          rfl⟩ := readMember_eq_ok_iff_padded.1 h
        refine ⟨lead, _, tail, hlead, htail, ?_,
          .member hname hgap hgap' hmember hidentifier hclass⟩
        rw [Text.eq_append_of_splitFirst? hsplit]
        simp only [String.append_assoc, Name.memberMark]
      · exact absurd h (by simp)
    · split at h
      · rename_i rest hrest
        obtain ⟨name, hread, rfl⟩ := exists_readName_of_map h
        obtain ⟨lead, text', gap, hlead, hgap, rfl, hname⟩ := readName_eq_ok_iff_padded.1 hread
        refine ⟨lead, _, "", hlead, Text.blanks_empty, ?_, .function hname hgap⟩
        rw [Text.stripEnd?_eq_some_iff.1 hrest]
        simp only [String.append_assoc, String.append_empty]
      · obtain ⟨name, hread, rfl⟩ := exists_readName_of_map h
        obtain ⟨lead, text', tail, hlead, htail, rfl, hname⟩ := readName_eq_ok_iff_padded.1 hread
        exact ⟨lead, text', tail, hlead, htail, rfl, .plain hname⟩

theorem identifier_of_parse {raw owner name : String} {kind : Option SymbolKind}
    (h : parse alphabet raw = .ok (.member owner name kind)) : alphabet.Identifier name := by
  obtain ⟨_, text, _, _, _, _, hspells⟩ := Spells.padded_of_parse h
  cases hspells with
  | member _ _ _ _ hname _ => exact hname

theorem NameText.not_mem {text name : String} (h : NameText alphabet text name) {c : Char}
    (hc : alphabet.continues c = false) (hne : c ≠ Name.separator) : c ∉ text.toList := by
  have hname := h.proper.not_mem hc hne
  rcases h.eq with rfl | rfl
  · exact hname
  · simpa [hne] using hname

theorem NameText.colon_not_mem {text name gap : String} (h : NameText alphabet text name)
    (hgap : Blanks gap) : ':' ∉ (text ++ gap).toList := by
  have hblank : Text.isBlank ':' = false := by decide
  rw [String.toList_append, List.mem_append, not_or]
  refine ⟨h.not_mem (Alphabet.Lawful.not_continues ':' (by simp)) (by decide), ?_⟩
  intro hmem
  exact Bool.false_ne_true (hblank.symm.trans (hgap _ hmem))

theorem NameText.readName {text name gap : String} (h : NameText alphabet text name)
    (hgap : Blanks gap) : readName alphabet (text ++ gap) = .ok name :=
  readName_eq_ok_iff_padded.2 ⟨"", text, gap, Text.blanks_empty, hgap, by simp, h⟩

theorem Spells.parse_eq {raw : String} {p : ParsedQuery} (h : Padded (Spells alphabet · p) raw) :
    parse alphabet raw = .ok p := by
  rw [Text.padded_iff (fun _ h => h.trimmed)] at h
  have hne := h.trimmed.ne_empty
  simp only [parse]
  rw [if_neg hne]
  generalize Text.trimBlanks raw = text at h
  cases h with
  | @plain _ name hname =>
      have hcolon := hname.colon_not_mem Text.blanks_empty
      rw [String.append_empty] at hcolon
      have hcall : Text.stripEnd? "()" text = none :=
        Text.stripEnd?_eq_none (c := '(') (by decide)
          (hname.not_mem (Alphabet.Lawful.not_continues '(' (by simp)) (by decide))
      have hread := hname.readName Text.blanks_empty
      rw [String.append_empty] at hread
      rw [Text.splitFirst?_eq_none rfl hcolon, hcall, hread]
      rfl
  | @function text name gap hname hblanks =>
      have hnone : Text.splitFirst? Name.memberMark (text ++ gap ++ "()") = none := by
        refine Text.splitFirst?_eq_none rfl ?_
        rw [String.toList_append, List.mem_append, not_or]
        exact ⟨hname.colon_not_mem hblanks, by decide⟩
      rw [hnone, Text.stripEnd?_eq_some_iff.2 rfl]
      simp only [hname.readName hblanks]
      rfl
  | @member text owner gap gap' member name kind howner hblanks hblanks' hmember hname hclass =>
      have hsplit : Text.splitFirst? Name.memberMark (text ++ gap ++ "::" ++ gap' ++ member) =
          some (text ++ gap, gap' ++ member) := by
        rw [show text ++ gap ++ "::" ++ gap' ++ member =
          text ++ gap ++ "::" ++ (gap' ++ member) from String.append_assoc]
        exact Text.splitFirst?_append rfl (howner.colon_not_mem hblanks) _
      have hread : readMember alphabet owner (gap' ++ member) = .ok (.member owner name kind) :=
        readMember_eq_ok_iff_padded.2 ⟨name, kind,
          ⟨gap', member, "", hblanks', Text.blanks_empty, by simp, hmember⟩, hname, hclass, rfl⟩
      rw [hsplit]
      simp only [howner.readName hblanks]
      exact hread

/-- Reading and the grammar agree, for every lawful alphabet. -/
theorem parse_eq_ok_iff_padded {raw : String} {p : ParsedQuery} :
    parse alphabet raw = .ok p ↔ Padded (Spells alphabet · p) raw :=
  ⟨Spells.padded_of_parse, Spells.parse_eq⟩

/-- A string is accepted as a query exactly if the grammar has it, blanks around it apart, and then
it asks for what the grammar says: an optional separator and a proper name ask for that name; with
`()` after it, for a function; and with `::` and a member after it, for a property, a method or a
member of any kind. -/
theorem parse_accepts_exactly_grammar (raw : String) (p : ParsedQuery) :
    parse .unicode raw = .ok p ↔ Padded (Spells .unicode · p) raw :=
  parse_eq_ok_iff_padded

end ParsedQuery
end CrossReference
