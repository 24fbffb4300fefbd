import CrossReference.Proofs.Candidate.Patterns
import CrossReference.Proofs.Catalog.Ancestry
import CrossReference.Proofs.Usage.Vocabulary
import CrossReference.Usage.Search

/-!
# Types that a file reaches without spelling them

A file that lacks a word can still refer to types whose names contain it: the declarations tell what
a class extends, what a function returns and what type a property has. `Catalog.ReachedWithout`
lists these ways, and `Catalog.ReachedWithout.of_site` says that there are no others: if a file
without the word has a site of a type, then the type is reached without the word.
-/

namespace CrossReference

open CrossReference.Tree

/-- The type names that a file which lacks `word`, up to case, can refer to. -/
inductive Catalog.ReachedWithout (c : Catalog) (word : String) : String → Prop
  | named {name : String} : Patterns.containsFolded name word = false → c.ReachedWithout word name
  | anonymous : c.ReachedWithout word Tracker.anonymousClass
  /-- What the enclosing class extends. -/
  | parentOf {type name : String} :
      Patterns.containsFolded type word = false ∨ type = Tracker.anonymousClass →
      c.parentOf? type = some name → c.ReachedWithout word name
  /-- The first declared type of a function. -/
  | returnedBy {function name : String} {s : Symbol} :
      Patterns.containsFolded function word = false → c.lookup? .function function = some s →
      s.types.head?.bind c.resolve? = some name → c.ReachedWithout word name
  /-- The first declared type of a method or a property. -/
  | memberOf {type member name : String} {kind : SymbolKind} {s : Symbol} :
      c.ReachedWithout word type → Patterns.containsFolded member word = false →
      kind = .method ∨ kind = .property → c.findMember? type member kind = some s →
      s.types.head?.bind c.resolve? = some name → c.ReachedWithout word name

namespace Patterns

/-- A word without separators does not reach across the separator between two texts. -/
theorem containsFolded_append_separator {word : String} (hword : Name.separator ∉ word.toList)
    (hne : word ≠ "") (before after : String) :
    containsFolded (String.ofList (before.toList ++ Name.separator :: after.toList)) word = true ↔
      containsFolded before word = true ∨ containsFolded after word = true := by
  have hlower : Name.separator ∉ word.toList.map Char.toLower := by
    intro h
    obtain ⟨x, hx, hxe⟩ := List.mem_map.1 h
    have hsep : x = Name.separator :=
      (Name.caseless_separator.toLower_eq_iff List.mem_cons_self x).1 hxe
    exact hword (hsep ▸ hx)
  have hnil : word.toList.map Char.toLower ≠ [] := by
    simpa using hne
  simp only [containsFolded_iff, String.toList_ofList, List.map_append, List.map_cons]
  exact Text.infix_append_cons_iff hlower hnil

end Patterns

/-! ## Sites of a type -/

namespace Search

section TypeSites

variable {s : Search} {A : Mention → Prop} {V : Vocabulary s.resolver A} {subject : String}
  (hquery : s.query = .type subject)
include hquery

theorem same_of_keywordSite? {target : Option String} {role : UsageKind} {span : Span} {site : Site}
    (h : s.keywordSite? target role span = some site) :
    ∃ type, target = some type ∧ Name.same type subject = true := by
  unfold keywordSite? at h
  rw [hquery] at h
  cases target with
  | none => exact absurd h (by simp)
  | some type =>
      dsimp only at h
      split at h
      · rename_i hsame
        exact ⟨type, rfl, hsame⟩
      · exact absurd h (by simp)

theorem known_of_typeNameSite? {ctx : Context} (hctx : V.InContext ctx) {name : Word}
    (hname : A (.className name.text)) {role : UsageKind} {site : Site}
    (h : s.typeNameSite? ctx name role = some site) :
    ∃ type, V.Known type ∧ Name.same type subject = true := by
  simp only [typeNameSite?, hquery] at h
  split at h
  · exact absurd h (by simp)
  · split at h
    · obtain ⟨type, htype, hsame⟩ := same_of_keywordSite? hquery h
      exact ⟨type, hctx.known_selfType htype, hsame⟩
    · split at h
      · obtain ⟨type, htype, hsame⟩ := same_of_keywordSite? hquery h
        exact ⟨type, hctx.known_parentType htype, hsame⟩
      · split at h
        · rename_i hdenotes
          exact ⟨_, hctx.known_resolve (V.spelt_name hname), hdenotes⟩
        · exact absurd h (by simp)

theorem known_of_dynamicClassSite? {p : Place} (hp : V.InPlace p) {e : Expr}
    (he : ∀ m ∈ Mentions.expr e, A m) {role : UsageKind} {site : Site}
    (h : s.dynamicClassSite? p e role = some site) :
    ∃ type, V.Known type ∧ Name.same type subject = true := by
  simp only [dynamicClassSite?, hquery] at h
  cases hdenoted : Resolver.denotedType? (s.resolver.value p e) with
  | none => exact absurd h (by simp [hdenoted])
  | some type =>
      simp only [hdenoted] at h
      split at h
      · rename_i hsame
        rw [Bool.and_eq_true] at hsame
        exact ⟨type, (hp.value e he).known_denotedType hdenoted, hsame.2⟩
      · exact absurd h (by simp)

theorem known_of_operandSite? {p : Place} (hp : V.InPlace p) {role : UsageKind} {site : Site}
    {target : ClassRef} (htarget : ∀ m ∈ Mentions.operand target, A m)
    (h : s.operandSite? p role target = some site) :
    ∃ type, V.Known type ∧ Name.same type subject = true := by
  cases target with
  | named name =>
      exact known_of_typeNameSite? hquery hp.context (htarget _ (by simp [Mentions.operand])) h
  | selfType span =>
      obtain ⟨type, htype, hsame⟩ := same_of_keywordSite? hquery h
      exact ⟨type, hp.context.known_selfType htype, hsame⟩
  | staticType span =>
      obtain ⟨type, htype, hsame⟩ := same_of_keywordSite? hquery h
      exact ⟨type, hp.context.known_selfType htype, hsame⟩
  | parentType span =>
      obtain ⟨type, htype, hsame⟩ := same_of_keywordSite? hquery h
      exact ⟨type, hp.context.known_parentType htype, hsame⟩
  | dynamic e => exact known_of_dynamicClassSite? hquery hp htarget h

theorem known_of_importSite? {kind : NameKind} {name : Word} (hname : A (.ofName kind name))
    {site : Site} (h : s.importSite? kind name = some site) :
    ∃ type, V.Known type ∧ Name.same type subject = true := by
  unfold importSite? at h
  rw [hquery] at h
  cases kind with
  | classLike =>
      have hknown : V.Known (Name.relative name.text) :=
        V.known_relative (V.known_spelt (V.spelt_name hname))
      dsimp only at h
      split at h
      · rename_i hsame
        exact ⟨_, hknown, hsame⟩
      · exact absurd h (by simp)
  | function => exact absurd h (by simp)
  | constant => exact absurd h (by simp)

theorem reflectedMember?_eq_none (type : Option String) (name : String) (access : MemberAccess)
    (span : Span) : s.reflectedMember? type name access span = none := by
  simp [reflectedMember?, hquery]

theorem callableSite?_eq_none (v : Value) (span : Span) (reflective : Bool) :
    s.callableSite? v span reflective = none := by
  unfold callableSite?
  split
  · rfl
  · split
    · simp [reflectedMember?, mediatedMember?, hquery]
    · simp [hquery]

theorem indirectSite?_eq_none (p : Place) (name : Word) (args : List Expr) :
    s.indirectSite? p name args = none := by
  simp only [indirectSite?]
  split
  · rfl
  · split
    · rfl
    · split
      · exact reflectedMember?_eq_none hquery _ _ _ _
      · split
        · unfold reflectedConstant?
          split
          · exact reflectedMember?_eq_none hquery _ _ _ _
          · simp [hquery]
        · exact callableSite?_eq_none hquery _ _ _

/-- A site of a type is at a name that is known and names the type. -/
theorem known_of_site? {e : Event} (he : e.Within A V.InPlace) {site : Site}
    (h : s.site? e = some site) : ∃ type, V.Known type ∧ Name.same type subject = true := by
  obtain ⟨p, reference⟩ := e
  obtain ⟨hp, hmentions⟩ := he
  cases reference with
  | imported kind name =>
      exact known_of_importSite? hquery (hmentions _ (List.mem_singleton.2 rfl)) h
  | typeName name role =>
      exact known_of_typeNameSite? hquery hp.context (hmentions _ (List.mem_singleton.2 rfl)) h
  | operand target role => exact known_of_operandSite? hquery hp hmentions h
  -- The other nodes refer to members, functions and constants.
  | construction target =>
      exact absurd h (by simp [site?, constructionSite?, hquery, Query.isConstructor])
  | call name args =>
      exact absurd h (by simp [site?, indirectSite?_eq_none hquery, functionSite?, hquery])
  | callValue callee => exact absurd h (by simp [site?, callableSite?_eq_none hquery])
  | member receiver name access nullsafe => exact absurd h (by simp [site?, memberSite?, hquery])
  | constant name => exact absurd h (by simp [site?, constantSite?, hquery])
  | typeBody => exact absurd h (by simp [site?])

end TypeSites

end Search

namespace Catalog.ReachedWithout

variable {c : Catalog} {word : String}

/-- The vocabulary of a file that lacks `word`. A word of one part cannot come about when names are
put together. -/
def vocabulary (c : Catalog) (builtins : Builtins) (hword : Name.separator ∉ word.toList)
    (hne : word ≠ "") :
    Vocabulary { catalog := c, builtins := builtins }
      (fun m => ∀ text, m.text? = some text → Patterns.containsFolded text word = false) where
  Spelt _ name := Patterns.containsFolded name word = false
  Known name := ∃ reached, c.ReachedWithout word reached ∧
    Name.relative reached = Name.relative name
  spelt_name {kind name} h := h name.text (by cases kind <;> rfl)
  spelt_namespace h := h _ rfl
  spelt_part {_ whole part} h hpart := by
    rw [Bool.eq_false_iff] at h ⊢
    exact fun hfound => h (Patterns.containsFolded_of_part hpart hfound)
  spelt_join {_ outer inner} houter hinner := by
    have hjoin : Name.join outer inner =
        String.ofList (outer.toList ++ Name.separator :: inner.toList) := by
      rw [← Name.toList_join, String.ofList_toList]
    rw [hjoin, Bool.eq_false_iff, ne_eq, Patterns.containsFolded_append_separator hword hne]
    simp [houter, hinner]
  known_spelt h := ⟨_, .named h, rfl⟩
  known_literal h := ⟨_, .named (h _ rfl), rfl⟩
  known_relative := by
    rintro name ⟨reached, h, heq⟩
    exact ⟨reached, h, by rw [heq, Name.relative_relative]⟩
  known_anonymous := ⟨_, .anonymous, rfl⟩
  known_parent htype hparent := ⟨_, .parentOf htype hparent, rfl⟩
  known_call hname hs htype := ⟨_, .returnedBy hname hs htype, rfl⟩
  known_member := by
    rintro receiver member type kind s hkind ⟨reached, h, heq⟩ hmember hs htype
    -- The receiver is known up to leading separators, and those do not matter to the lookup.
    rw [← Catalog.findMember?_congr heq] at hs
    exact ⟨_, .memberOf h (hmember member rfl) hkind hs htype, rfl⟩

/-- A type with a site in a file that lacks the word is reached without the word. -/
theorem of_site {settings : Settings} {subject : String} {f : SourceFile}
    (hword : Name.separator ∉ word.toList) (hne : word ≠ "") (hfaithful : f.IsFaithful)
    (hlacks : Patterns.containsFolded f.text word = false)
    (hsites : (Search.ofQuery c settings (.type subject)).sites f.stmts ≠ []) :
    ∃ name, c.ReachedWithout word name ∧ Name.same name subject = true := by
  have hmentions : ∀ m ∈ Mentions.stmts f.stmts, ∀ text, m.text? = some text →
      Patterns.containsFolded text word = false := by
    intro m hm text htext
    have hcontains := hfaithful text (List.mem_filterMap.2 ⟨m, hm, htext⟩)
    rw [Bool.eq_false_iff] at hlacks ⊢
    exact fun h => hlacks (Patterns.containsFolded_of_part (Text.contains_iff.1 hcontains) h)
  obtain ⟨found, hfound⟩ := List.exists_mem_of_ne_nil _ hsites
  obtain ⟨e, he, hsite⟩ := List.mem_filterMap.1 hfound
  obtain ⟨site, hsite, -⟩ := Option.map_eq_some_iff.1 hsite
  obtain ⟨type, ⟨reached, hreached, heq⟩, hsame⟩ := Search.known_of_site? rfl
    ((vocabulary c settings.builtins hword hne).within_of_mem_eventsOf hmentions he) hsite
  refine ⟨reached, hreached, ?_⟩
  rw [Name.same_iff] at hsame ⊢
  rw [← Name.key_relative, heq, Name.key_relative, hsame]

end Catalog.ReachedWithout
end CrossReference
