import CrossReference.Proofs.Candidate.Patterns
import CrossReference.Proofs.Catalog.Ancestry
import CrossReference.Proofs.Usage.Attribution
import CrossReference.Proofs.Usage.Vocabulary
import CrossReference.Proofs.Workspace.Calls
import CrossReference.Usage.Search

/-!
# Candidates for a member

A member is referred to by its name, by a name that is computed, by a function that calls what its
arguments say, by a called string of the form `Type::member`, or, if it is a constructor, by making
an object. Each of these leaves a trace in the text that the patterns of the query look for,
provided that `::` occurs in no name of a type: else such a name could be called like a string that
nobody wrote.

* `Patterns.accept_of_site?` follows the five ways.
* `candidates_complete_for_member` concludes that no file with a site is dropped.
-/

namespace CrossReference

open CrossReference.Tree

/-- A class name or a namespace. -/
def Tree.Mention.typeName? : Mention → Option String
  | className text => some text
  | namespaceName text => some text
  | _ => none

/-- A file that computes the name of a member has one of the marks of that in its text. -/
def SourceFile.MarksDynamicMembers (f : SourceFile) : Prop :=
  Mention.dynamicMember ∈ f.mentions →
    ∃ mark ∈ Patterns.dynamicMarks, Text.contains f.text mark = true

instance (f : SourceFile) : Decidable f.MarksDynamicMembers :=
  inferInstanceAs (Decidable (_ → ∃ mark ∈ Patterns.dynamicMarks, _))

/-- The member mark does not occur in `name`. -/
def Name.IsPlain (name : String) : Prop :=
  Text.contains name Name.memberMark = false

instance (name : String) : Decidable (Name.IsPlain name) :=
  inferInstanceAs (Decidable (_ = _))

theorem Name.isPlain_iff {name : String} :
    Name.IsPlain name ↔ ¬ Name.memberMark.toList <:+: name.toList := by
  rw [Name.IsPlain, Bool.eq_false_iff, ne_eq, Text.contains_iff]

theorem Name.IsPlain.of_part {whole part : String} (h : Name.IsPlain whole)
    (hpart : part.toList <:+: whole.toList) : Name.IsPlain part := by
  rw [Name.isPlain_iff] at h ⊢
  exact fun hmark => h (hmark.trans hpart)

theorem Name.IsPlain.join {outer inner : String} (houter : Name.IsPlain outer)
    (hinner : Name.IsPlain inner) : Name.IsPlain (Name.join outer inner) := by
  rw [Name.isPlain_iff] at *
  rw [Name.toList_join, Text.infix_append_cons_iff (by decide) (by decide)]
  exact not_or.2 ⟨houter, hinner⟩

/-! ## What is known in a file with plain names of types -/

/-- What a file with the text `text` may mention: what occurs in the text, with plain names of types
and with a mark for computed names of members. -/
structure Tree.Mention.VisibleIn (text : String) (m : Mention) : Prop where
  contained : ∀ word, m.text? = some word → Text.contains text word = true
  plain : ∀ name, m.typeName? = some name → Name.IsPlain name
  marked : m = .dynamicMember → ∃ mark ∈ Patterns.dynamicMarks, Text.contains text mark = true

/-- Names of types are plain, so a known text with a member mark in it is written in the file. -/
def plainVocabulary (c : Catalog) (builtins : Builtins) (text : String)
    (hc : ∀ name ∈ c.typeNames, Name.IsPlain name) :
    Vocabulary { catalog := c, builtins := builtins } (Mention.VisibleIn text) where
  Spelt kind name := kind = .classLike → Name.IsPlain name
  Known name := Name.IsPlain name ∨ Text.contains text name = true
  spelt_name h := by
    rintro rfl
    exact h.plain _ rfl
  spelt_namespace h _ := h.plain _ rfl
  spelt_part h hpart hkind := (h hkind).of_part hpart
  spelt_join houter hinner hkind := (houter rfl).join (hinner hkind)
  known_spelt h := .inl (h rfl)
  known_literal h := .inr (h.contained _ rfl)
  known_relative {name} h := by
    rcases h with h | h
    · exact .inl (h.of_part (Name.isInfix_relative name))
    · exact .inr (Text.contains_iff.2 ((Name.isInfix_relative name).trans (Text.contains_iff.1 h)))
  known_anonymous := .inl (by decide)
  known_parent _ h := .inl (hc _ (Catalog.mem_typeNames_of_parentOf? h))
  known_call _ hs h := .inl (hc _ (Catalog.mem_typeNames_of_resolve? hs h))
  known_member _ _ _ hs h := by
    obtain ⟨owner, howner⟩ := Catalog.exists_lookup?_of_findMember? hs
    exact .inl (hc _ (Catalog.mem_typeNames_of_resolve? howner h))

/-! ## What the patterns look for -/

namespace Settings

theorem mem_sortedWords {words : List String} {word : String} :
    word ∈ sortedWords words ↔ word ∈ words := by
  simp [sortedWords]

end Settings

namespace Patterns

section Accept

variable {settings : Settings} {owner name text : String} {kind : SymbolKind}
  (hname : Name.isConstructor name = false)
include hname

theorem ofQuery_member : ofQuery settings (.member owner name kind) =
    { required := [name]
      sufficient := dynamicMarks ++ Settings.sortedWords settings.indirectCalls
      ignoreCase := kind = .method } := by
  simp [ofQuery, hname]

/-- A word of the text that names the member, with or without regard to case as its kind has it. -/
theorem accept_of_sameMember {word : String} (access : MemberAccess)
    (haccess : access.symbolKind = kind) (hsame : kind.sameMember word name = true)
    (hword : Text.contains text word = true) :
    let p := ofQuery settings (.member owner name kind)
    p.accept p.ignoreCase text = true := by
  have hrequired : (if kind = .method then containsFolded text name
      else Text.contains text name) = true := by
    by_cases hkind : kind = .method
    · subst hkind
      have hfolded : Text.sameFolded word name = true := by
        simpa [SymbolKind.sameMember, SymbolKind.ignoresCase] using hsame
      rw [if_pos rfl]
      exact containsFolded_of_contains hword hfolded
    · -- The other kinds that an access can reach keep their case.
      have hcase : kind.ignoresCase = false := by
        subst haccess
        cases access <;> first | rfl | exact absurd rfl hkind
      obtain rfl : word = name := by
        simpa [SymbolKind.sameMember, hcase] using hsame
      rw [if_neg hkind]
      exact hword
  simp [ofQuery_member hname, accept, hrequired]

/-- One of the texts that alone make a file worth walking. -/
theorem accept_of_sufficient {word : String}
    (hmem : word ∈ dynamicMarks ++ Settings.sortedWords settings.indirectCalls)
    (hword : containsFolded text word = true) :
    let p := ofQuery settings (.member owner name kind)
    p.accept p.ignoreCase text = true := by
  have hany : (dynamicMarks ++ Settings.sortedWords settings.indirectCalls).any
      (containsFolded text) = true :=
    List.any_eq_true.2 ⟨word, hmem, hword⟩
  simp only [ofQuery_member hname, accept, hany, Bool.or_true]

/-- A function whose arguments name members is written in the text. -/
theorem accept_of_isIndirectCall {word : String} (hcall : settings.isIndirectCall word = true)
    (hword : Text.contains text word = true) :
    let p := ofQuery settings (.member owner name kind)
    p.accept p.ignoreCase text = true := by
  have hmem : Name.key word ∈ settings.indirectCalls := by
    simpa [Settings.isIndirectCall] using hcall
  apply accept_of_sufficient hname
    (List.mem_append_right _ (Settings.mem_sortedWords.2 hmem))
  have hrelative : Text.contains text (Name.relative word) = true :=
    Text.contains_iff.2 ((Name.isInfix_relative word).trans (Text.contains_iff.1 hword))
  refine containsFolded_of_contains hrelative (Text.sameFolded_iff.2 ?_)
  unfold Name.key
  rw [Text.foldCase_foldCase]

/-- A computed name of a member leaves a mark. -/
theorem accept_of_dynamicMember (h : Mention.VisibleIn text .dynamicMember) :
    let p := ofQuery settings (.member owner name kind)
    p.accept p.ignoreCase text = true := by
  obtain ⟨mark, hmark, hcontains⟩ := h.marked rfl
  exact accept_of_sufficient hname (List.mem_append_left _ hmark)
    (containsFolded_of_contains hcontains (Text.sameFolded_iff.2 rfl))

/-! ## The ways to refer to a member -/

section Sites

variable {c : Catalog} {hc : ∀ name ∈ c.typeNames, Name.IsPlain name}

theorem accept_of_memberSite? {p : Place} {receiver : Receiver} {member : MemberName}
    {access : MemberAccess} {nullsafe : Bool} {site : Site}
    (hmember : ∀ m ∈ Mentions.memberName member, m.VisibleIn text)
    (h : (Search.ofQuery c settings (.member owner name kind)).memberSite? p receiver member access
      nullsafe = some site) :
    let p := ofQuery settings (.member owner name kind)
    p.accept p.ignoreCase text = true := by
  simp only [Search.memberSite?, Search.ofQuery] at h
  split at h
  · rename_i haccess
    cases member with
    | ident word =>
        simp only [Search.nameMatch?] at h
        split at h
        · exact absurd h (by simp)
        · rename_i hmatch
          split at hmatch
          · rename_i hsame
            have hword : Text.contains text word.text = true :=
              (hmember (.word word.text) (by simp [Mentions.memberName])).contained _ rfl
            exact accept_of_sameMember hname access haccess hsame hword
          · exact absurd hmatch (by simp)
    | dynamic e => exact accept_of_dynamicMember hname (hmember _ (by simp [Mentions.memberName]))
  · exact absurd h (by simp)

/-- A called string with a member mark in it is not the name of a type, so it is written in the
text. -/
theorem accept_of_callableSite? {v : Value}
    (hv : (plainVocabulary c settings.builtins text hc).InValue v) {span : Span} {site : Site}
    (h : (Search.ofQuery c settings (.member owner name kind)).callableSite? v span false =
      some site) :
    let p := ofQuery settings (.member owner name kind)
    p.accept p.ignoreCase text = true := by
  unfold Search.callableSite? at h
  split at h
  · exact absurd h (by simp)
  · rename_i contents hcontents
    have hknown : Name.IsPlain contents ∨ Text.contains text contents = true := by
      apply hv.text
      unfold Search.knownText? at hcontents
      split at hcontents
      · exact hcontents
      · exact absurd hcontents (by simp)
    split at h
    · rename_i type member hsplit
      -- The string was cut at a member mark, so it is not plain.
      have hwritten : Text.contains text contents = true := by
        refine hknown.resolve_left fun hplain => ?_
        obtain ⟨⟨before, after⟩, hcut, -⟩ := Option.map_eq_some_iff.1 hsplit
        rw [Name.isPlain_iff, Text.eq_append_of_cutFirst? hcut] at hplain
        exact hplain ⟨before, after, rfl⟩
      have hmember : Text.contains text member = true :=
        Text.contains_iff.2
          ((Text.infix_of_splitFirst? hsplit).2.trans (Text.contains_iff.1 hwritten))
      simp only [Bool.false_eq_true, if_false, Search.mediatedMember?, Search.ofQuery] at h
      split at h
      · rename_i hmethod
        rw [Bool.and_eq_true, decide_eq_true_eq] at hmethod
        exact accept_of_sameMember hname .staticMethod hmethod.1.symm hmethod.2 hmember
      · exact absurd h (by simp)
    · exact absurd h (by simp [Search.ofQuery])

/-- Whatever node refers to the member, the file is worth walking. -/
theorem accept_of_site? {e : Event}
    (he : e.Within (Mention.VisibleIn text) (plainVocabulary c settings.builtins text hc).InPlace)
    {site : Site} (h : (Search.ofQuery c settings (.member owner name kind)).site? e = some site) :
    let p := ofQuery settings (.member owner name kind)
    p.accept p.ignoreCase text = true := by
  obtain ⟨p, reference⟩ := e
  obtain ⟨hp, hmentions⟩ := he
  cases reference with
  | call word args =>
      have hword : Text.contains text word.text = true :=
        (hmentions (.word word.text) List.mem_cons_self).contained _ rfl
      simp only [Search.site?] at h
      split at h
      · rename_i hcall
        exact accept_of_isIndirectCall hname hcall hword
      · exact absurd h (by simp [Search.functionSite?, Search.ofQuery])
  | callValue callee => exact accept_of_callableSite? hname (hp.value callee hmentions) h
  | member receiver member access nullsafe =>
      exact accept_of_memberSite? hname (List.forall_mem_append.1 hmentions).2 h
  | construction target =>
      have hconstructor : (Query.member owner name kind).isConstructor = false := by
        cases kind <;> simp [Query.isConstructor, hname]
      exact absurd h (by simp [Search.site?, Search.constructionSite?, Search.ofQuery,
        hconstructor])
  -- The other nodes refer to types, imports and constants.
  | imported family word =>
      have hnone : (Search.ofQuery c settings (.member owner name kind)).importSite? family word =
          none := Search.importSite?_eq_none rfl family word
      exact absurd h (by simp [Search.site?, hnone])
  | typeName word role =>
      exact absurd h (by simp [Search.site?, Search.typeNameSite?, Search.ofQuery])
  | operand target role =>
      have hnone : (Search.ofQuery c settings (.member owner name kind)).operandSite? p role
          target = none :=
        Search.operandSite?_eq_none (by simp [Search.ofQuery]) p role target
      exact absurd h (by simp [Search.site?, hnone])
  | constant word => exact absurd h (by simp [Search.site?, Search.constantSite?, Search.ofQuery])
  | typeBody => exact absurd h (by simp [Search.site?])

end Sites

end Accept

end Patterns

/-- No file with a site of a member is dropped, with or without the second look: for every catalog
and settings, if the texts contain what the trees mention and mark computed names of members, and no
name of a type contains the member mark. -/
theorem candidates_complete_for_member (c : Catalog) (settings : Settings) (owner name : String)
    (kind : SymbolKind) (files : List SourceFile) (hfaithful : ∀ f ∈ files, f.IsFaithful)
    (hmarked : ∀ f ∈ files, f.MarksDynamicMembers)
    (hplain : ∀ f ∈ files, ∀ type ∈ f.mentions.filterMap Mention.typeName?, Name.IsPlain type)
    (hcatalog : ∀ type ∈ c.typeNames, Name.IsPlain type) (i : Nat) (f : SourceFile)
    (hf : files[i]? = some f)
    (hsites : (Search.ofQuery c settings (.member owner name kind)).sites f.stmts ≠ []) :
    i ∈ candidates settings (.member owner name kind) (files.map SourceFile.text) := by
  have hmem := List.mem_of_getElem? hf
  have hvisible : ∀ m ∈ Mentions.stmts f.stmts, m.VisibleIn f.text := by
    intro m hm
    refine ⟨fun word hword => ?_, fun type htype => ?_, ?_⟩
    · exact hfaithful f hmem word (List.mem_filterMap.2 ⟨m, hm, hword⟩)
    · exact hplain f hmem type (List.mem_filterMap.2 ⟨m, hm, htype⟩)
    · rintro rfl
      exact hmarked f hmem hm
  have htext : (files.map SourceFile.text)[i]? = some f.text := by simp [hf]
  apply mem_candidates_of_accept htext
  by_cases hname : Name.isConstructor name = true
  · exact .inl (by simp [Patterns.ofQuery, hname, Patterns.isVacuous])
  · right
    obtain ⟨found, hfound⟩ := List.exists_mem_of_ne_nil _ hsites
    obtain ⟨e, he, hsite⟩ := List.mem_filterMap.1 hfound
    obtain ⟨site, hsite, -⟩ := Option.map_eq_some_iff.1 hsite
    have hwithin :=
      (plainVocabulary c settings.builtins f.text hcatalog).within_of_mem_eventsOf hvisible he
    exact Patterns.accept_of_site? (Bool.eq_false_iff.2 hname) hwithin hsite

/-- A file that declares a class with a method, and one that calls the method through a string and
through a computed name. -/
def indirectCallers : List SourceFile :=
  [{ path := "widget.php"
     text := "class Widget { function render() {} }"
     tree := some
      [.classLike (.mk .classDecl (some ⟨"Widget", ⟨6, 12⟩⟩) [] []
        [.method ⟨"render", ⟨24, 30⟩⟩ .everyone false [] none []])] },
   { path := "calls.php"
     text := "$call = 'Widget::RENDER'; $call(); (new Widget)->$name();"
     tree := some
      [.expr (.assign (.var "call" ⟨0, 5⟩) (.text "Widget::RENDER" ⟨8, 24⟩) ⟨0, 24⟩),
        .expr (.call (.value (.var "call" ⟨26, 31⟩)) [] ⟨26, 33⟩),
        .expr (.methodCall (.new (.named ⟨"Widget", ⟨40, 46⟩⟩) [] ⟨36, 46⟩)
          (.dynamic (.var "name" ⟨49, 54⟩)) [] false ⟨35, 56⟩)] }]

/-- What the two files declare. -/
def indirectCallersCatalog : Catalog :=
  (Workspace.after {} [.setFiles indirectCallers, .snapshot]).catalog

/-- The second file has two sites of the method, in neither of which its name stands as declared. -/
theorem indirect_callers_are_candidates :
    let query := Query.member "Widget" "render" .method
    ((Search.ofQuery indirectCallersCatalog {} query).sites indirectCallers[1].stmts).length = 2 ∧
      1 ∈ candidates {} query (indirectCallers.map SourceFile.text) := by
  have hsites : ((Search.ofQuery indirectCallersCatalog {}
      (.member "Widget" "render" .method)).sites indirectCallers[1].stmts).length = 2 := by
    decide +kernel
  refine ⟨hsites, candidates_complete_for_member indirectCallersCatalog {} "Widget" "render" .method
    indirectCallers (by decide +kernel) (by decide +kernel) (by decide +kernel) (by decide +kernel)
    1 indirectCallers[1] rfl ?_⟩
  exact List.ne_nil_of_length_pos (by rw [hsites]; decide)

end CrossReference
