import CrossReference.Proofs.Catalog.History
import CrossReference.Proofs.Catalog.Keys
import CrossReference.Proofs.Query.Grammar

/-!
# Binding a rendered query again

A bound query is rendered with the names of the declarations. Read and bound again, it gives the
same query: a declared name is found under itself, it does not turn up earlier among types,
functions and constants than the name that was asked for, and a type that was found by its last part
is found by its whole name. Only the mark of a method is not rendered.

* `Symbol.WellNamed` says what is asked of the declared names.
* `Catalog.exists_lookupType?_of_uniqueType?` finds a type by its whole name, and
  `Query.bindOwner_bindOwner` binds an owner again.
* `Query.bindName_rebinds` and `Query.bind_member_rebinds` say that names and members are bound to
  themselves; `Query.bound_again_after_render` puts them together.
-/

namespace CrossReference

open Text (Alphabet foldCase)

/-! ## Declared names -/

namespace Symbol

/-- Whether a symbol is known without an owner: a type, a function or a global constant. -/
def isGlobal (s : Symbol) : Bool :=
  s.kind.isType || s.kind = .function ||
    s.kind = .constant && (Text.splitLast? Name.memberMark s.qualifiedName).isNone

/-- The names of a symbol are as they should be. -/
structure WellNamed (s : Symbol) : Prop where
  /-- The short name is the one that `ofName` gives. -/
  spelled : s.name = (ofName s.kind s.qualifiedName s.file).name
  proper : s.isGlobal = true → Name.Proper .unicode s.qualifiedName

instance (s : Symbol) : Decidable s.WellNamed :=
  decidable_of_iff (s.name = (ofName s.kind s.qualifiedName s.file).name ∧
      (s.isGlobal = true →
        (Text.pieces Name.separator s.qualifiedName.toList).all Alphabet.unicode.isIdentifier =
          true))
    ⟨fun h => ⟨h.1, fun hs => Name.proper_iff.2 (h.2 hs)⟩,
      fun h => ⟨h.spelled, fun hs => Name.proper_iff.1 (h.proper hs)⟩⟩

theorem name_ofName_type (kind : Tree.ClassKind) (qualified : String) (file : FileId) :
    (ofName (.type kind) qualified file).name = Name.lastPart qualified := by
  unfold ofName
  cases Text.splitLast? Name.memberMark qualified <;> rfl

theorem WellNamed.name_of_isType {s : Symbol} (h : s.WellNamed) (htype : s.kind.isType = true) :
    s.name = Name.lastPart s.qualifiedName := by
  rw [h.spelled]
  cases hkind : s.kind with
  | type kind => exact name_ofName_type kind s.qualifiedName s.file
  | _ => exact absurd htype (by simp [hkind, SymbolKind.isType])

theorem isGlobal_of_isType {s : Symbol} (h : s.kind.isType = true) : s.isGlobal = true := by
  simp [isGlobal, h]

end Symbol

namespace Name

variable {alphabet : Alphabet} [alphabet.Lawful]

theorem Proper.relative_eq {name : String} (h : Proper alphabet name) : relative name = name := by
  apply String.toList_inj.1
  rw [toList_relative]
  cases hname : name.toList with
  | nil => rfl
  | cons c cs =>
      have hc : isSeparator c ≠ true := by
        intro hc
        refine h.ne_append (String.ofList cs) ?_
        apply String.toList_inj.1
        rw [hname, beq_iff_eq.1 hc]
        simp
      rw [List.dropWhile_cons_of_neg hc]

theorem Proper.colon_not_mem_key {name : String} (h : Proper alphabet name) :
    ':' ∉ (key name).toList := by
  unfold key
  rw [h.relative_eq, Text.toList_foldCase, List.mem_map]
  rintro ⟨c, hc, hcolon⟩
  obtain rfl := (caseless_memberMark.toLower_eq_iff (by decide) c).1 hcolon
  exact h.not_mem (Alphabet.Lawful.not_continues ':' (by simp)) (by decide) hc

end Name

/-- Types whose names have one key have one short name, up to case. -/
theorem Symbol.foldCase_name_congr {s t : Symbol} (hs : s.WellNamed) (ht : t.WellNamed)
    (hstype : s.kind.isType = true) (httype : t.kind.isType = true)
    (h : Name.key s.qualifiedName = Name.key t.qualifiedName) :
    foldCase s.name = foldCase t.name := by
  unfold Name.key at h
  rw [(hs.proper (isGlobal_of_isType hstype)).relative_eq,
    (ht.proper (isGlobal_of_isType httype)).relative_eq] at h
  rw [hs.name_of_isType hstype, ht.name_of_isType httype, Name.foldCase_lastPart,
    Name.foldCase_lastPart, h]

/-! ## Declared symbols under their own names -/

namespace Catalog

variable {c : Catalog} {name : String} {s : Symbol}

theorem lookup?_qualifiedName (hc : c.Owned) {kind : SymbolKind}
    (h : c.lookup? kind name = some s) : c.lookup? kind s.qualifiedName = some s := by
  unfold lookup? SymbolKey.ofName at h ⊢
  rw [(hc.fold_eq_of_lookup? h).2]
  exact h

theorem lookupType?_qualifiedName (hc : c.Owned) (h : c.lookupType? name = some s) :
    c.lookupType? s.qualifiedName = some s := by
  have hkey := key_declaredName hc name
  rw [declaredName, h] at hkey
  rw [← h]
  exact c.keyed_lookupType? _ _ hkey

/-- The names of all symbols are as they should be. -/
def WellNamed (c : Catalog) : Prop :=
  ∀ s ∈ c.symbols.values, s.WellNamed

theorem wellNamed_after {changes : List Change}
    (h : ∀ s, .declare s ∈ changes → s.WellNamed) : (after changes).WellNamed := by
  intro s hs
  obtain ⟨key, hkey⟩ := OrderedMap.mem_values_iff.1 hs
  rw [← (owned_after changes).key_eq key s hkey, find?_after_iff] at hkey
  obtain ⟨earlier, later, rfl, _⟩ := hkey
  exact h s (by simp)

theorem wellNamed_of_lookup? (hnames : c.WellNamed) {kind : SymbolKind}
    (h : c.lookup? kind name = some s) : s.WellNamed :=
  hnames s (OrderedMap.mem_values_iff.2 ⟨_, h⟩)

theorem proper_of_lookupType? (hc : c.Owned) (hnames : c.WellNamed)
    (h : c.lookupType? name = some s) : Name.Proper .unicode s.qualifiedName := by
  obtain ⟨kind, hs⟩ := exists_lookup?_of_lookupType? h
  refine (wellNamed_of_lookup? hnames hs).proper (Symbol.isGlobal_of_isType ?_)
  rw [(hc.fold_eq_of_lookup? hs).1]
  rfl

theorem mem_typesNamed_iff {short : String} :
    s ∈ c.typesNamed short ↔
      s ∈ c.symbols.values ∧ s.kind.isType = true ∧ foldCase s.name = foldCase short := by
  unfold typesNamed
  rw [List.mem_filter, Bool.and_eq_true, Text.sameFolded_iff]

theorem hasType_of_mem_values (hc : c.Owned) (h : s ∈ c.symbols.values)
    (htype : s.kind.isType = true) : c.hasType s.qualifiedName = true := by
  obtain ⟨key, hkey⟩ := OrderedMap.mem_values_iff.1 h
  have hfound : c.lookup? s.kind s.qualifiedName = some s := by
    rw [← hc.key_eq key s hkey] at hkey
    exact hkey
  cases hkind : s.kind with
  | type kind =>
      rw [hkind] at hfound
      refine List.findSome?_isSome_iff.2 ⟨kind, ?_, by rw [hfound]; rfl⟩
      cases kind <;> decide
  | _ => exact absurd htype (by simp [hkind, SymbolKind.isType])

/-- The only type with a last part is found under its whole name. -/
theorem exists_lookupType?_of_uniqueType? (hc : c.Owned) (hnames : c.WellNamed) {type : String}
    (h : Query.uniqueType? c name = some type) :
    ∃ s, c.lookupType? type = some s ∧ s.qualifiedName = type := by
  unfold Query.uniqueType? at h
  split at h
  · exact absurd h (by simp)
  · split at h
    · rename_i only honly
      obtain rfl := Option.some.inj h
      have hmem : only ∈ c.typesNamed name := by
        rw [honly]
        exact List.mem_singleton_self only
      obtain ⟨hmem, htype, hshort⟩ := mem_typesNamed_iff.1 hmem
      obtain ⟨s, hs⟩ := Option.isSome_iff_exists.1 (hasType_of_mem_values hc hmem htype)
      -- A type of another kind with the same whole name would have the last part, too.
      have hsame : s ∈ c.typesNamed name := by
        obtain ⟨kind, hfound⟩ := exists_lookup?_of_lookupType? hs
        have hstype : s.kind.isType = true := by
          rw [(hc.fold_eq_of_lookup? hfound).1]
          rfl
        have hkey := key_declaredName hc only.qualifiedName
        rw [declaredName, hs] at hkey
        refine mem_typesNamed_iff.2 ⟨OrderedMap.mem_values_iff.2 ⟨_, hfound⟩, hstype, ?_⟩
        rw [← hshort]
        exact Symbol.foldCase_name_congr (wellNamed_of_lookup? hnames hfound) (hnames only hmem)
          hstype htype hkey
      rw [honly, List.mem_singleton] at hsame
      subst hsame
      exact ⟨s, hs, rfl⟩
    · exact absurd h (by simp)

end Catalog

/-! ## Rendered queries -/

namespace ParsedQuery

variable {alphabet : Alphabet} [alphabet.Lawful]

theorem parse_name {name : String} (h : Name.Proper alphabet name) :
    parse alphabet name = .ok (.plain name) :=
  Spells.parse_eq (Text.padded_self (.plain ⟨h, .inl rfl⟩))

theorem parse_call {name : String} (h : Name.Proper alphabet name) :
    parse alphabet (name ++ "()") = .ok (.function name) := by
  have hspells : Spells alphabet (name ++ "" ++ "()") (.function name) :=
    .function ⟨h, .inl rfl⟩ Text.blanks_empty
  rw [String.append_empty] at hspells
  exact Spells.parse_eq (Text.padded_self hspells)

theorem parse_member {owner member name : String} {kind : Option SymbolKind}
    (howner : Name.Proper alphabet owner) (hmember : MemberText member name kind)
    (hname : alphabet.Identifier name) (hclass : Text.sameFolded name "class" = false) :
    parse alphabet (Name.member owner member) = .ok (.member owner name kind) := by
  have hspells : Spells alphabet (owner ++ "" ++ "::" ++ "" ++ member)
      (.member owner name kind) :=
    .member ⟨howner, .inl rfl⟩ Text.blanks_empty Text.blanks_empty hmember hname hclass
  rw [String.append_empty, String.append_empty] at hspells
  exact Spells.parse_eq (Text.padded_self hspells)

end ParsedQuery

namespace Query

variable {c : Catalog}

theorem parse_of_parsed {raw : String} {p : ParsedQuery}
    (h : ParsedQuery.parse .unicode raw = .ok p) : parse c raw = .ok (bind c p) := by
  rw [parse, h]
  rfl

/-- An owner stays as it is, or it is bound to a type that is found under the name it is bound to.
-/
theorem bindOwner_self_or_declared (hc : c.Owned) (hnames : c.WellNamed) (owner : String) :
    bindOwner c owner = owner ∨
      ∃ s, c.lookupType? (bindOwner c owner) = some s ∧ s.qualifiedName = bindOwner c owner := by
  unfold bindOwner
  cases hlookup : c.lookupType? owner with
  | some s => exact .inr ⟨s, Catalog.lookupType?_qualifiedName hc hlookup, rfl⟩
  | none =>
      cases hunique : uniqueType? c owner with
      | some type => exact .inr (Catalog.exists_lookupType?_of_uniqueType? hc hnames hunique)
      | none => exact .inl rfl

theorem bindOwner_bindOwner (hc : c.Owned) (hnames : c.WellNamed) (owner : String) :
    bindOwner c (bindOwner c owner) = bindOwner c owner := by
  rcases bindOwner_self_or_declared hc hnames owner with hself | ⟨s, hs, hname⟩
  · rw [hself, hself]
  · rw [bindOwner, hs]
    exact hname

theorem proper_bindOwner (hc : c.Owned) (hnames : c.WellNamed) {owner : String}
    (h : Name.Proper .unicode owner) : Name.Proper .unicode (bindOwner c owner) := by
  rcases bindOwner_self_or_declared hc hnames owner with hself | ⟨s, hs, hname⟩
  · rwa [hself]
  · rw [← hname]
    exact Catalog.proper_of_lookupType? hc hnames hs

theorem bindName_of_lookupType? {name : String} {s : Symbol} (h : c.lookupType? name = some s) :
    bindName c name = .type s.qualifiedName := by
  rw [bindName, h]

/-- A constant is not found earlier under its own name than under the name that was asked for. -/
theorem bindName_of_constant (hc : c.Owned) {name : String} {s : Symbol}
    (htype : c.lookupType? name = none) (hfunction : c.lookup? .function name = none)
    (hs : c.lookup? .constant name = some s) :
    Name.key s.qualifiedName = Name.key name ∧
      bindName c s.qualifiedName = .constant s.qualifiedName := by
  have hfold := congrArg foldCase (hc.fold_eq_of_lookup? hs).2
  rw [SymbolKey.foldCase_fold, SymbolKey.foldCase_fold] at hfold
  refine ⟨hfold, ?_⟩
  rw [bindName, c.keyed_lookupType? _ _ hfold, htype, c.keyed_lookup? rfl _ _ hfold, hfunction,
    Catalog.lookup?_qualifiedName hc hs]

theorem proper_of_constant (hc : c.Owned) (hnames : c.WellNamed) {name : String} {s : Symbol}
    (hname : Name.Proper .unicode name) (hs : c.lookup? .constant name = some s)
    (hkey : Name.key s.qualifiedName = Name.key name) : Name.Proper .unicode s.qualifiedName := by
  refine (Catalog.wellNamed_of_lookup? hnames hs).proper ?_
  have hglobal : Text.splitLast? Name.memberMark s.qualifiedName = none := by
    rw [Option.eq_none_iff_forall_ne_some]
    rintro ⟨owner, m⟩ hsplit
    obtain ⟨hmember, _⟩ := Name.eq_member_of_splitLast? hsplit
    rw [hmember, Name.key_member] at hkey
    refine hname.colon_not_mem_key ?_
    rw [← hkey]
    simp [Name.memberMark]
  simp [Symbol.isGlobal, (hc.fold_eq_of_lookup? hs).1, hglobal]

/-- A name is bound to a query that is bound to itself when it is rendered. -/
theorem bindName_rebinds (hc : c.Owned) (hnames : c.WellNamed) {name : String}
    (hname : Name.Proper .unicode name) :
    parse c (bindName c name).render = .ok (bindName c name) := by
  have hdeclared : ∀ {type : String} {s : Symbol}, c.lookupType? type = some s →
      s.qualifiedName = type → parse c type = .ok (.type type) := by
    intro type s hs htype
    have hproper := Catalog.proper_of_lookupType? hc hnames hs
    rw [htype] at hproper
    rw [parse_of_parsed (ParsedQuery.parse_name hproper), bind, bindName_of_lookupType? hs, htype]
  cases htype : c.lookupType? name with
  | some s =>
      rw [bindName_of_lookupType? htype]
      exact hdeclared (Catalog.lookupType?_qualifiedName hc htype) rfl
  | none =>
      cases hfunction : c.lookup? .function name with
      | some s =>
          have hproper : Name.Proper .unicode s.qualifiedName := by
            refine (Catalog.wellNamed_of_lookup? hnames hfunction).proper ?_
            simp [Symbol.isGlobal, (hc.fold_eq_of_lookup? hfunction).1]
          simp only [bindName, htype, hfunction]
          exact parse_of_parsed (ParsedQuery.parse_call hproper)
      | none =>
          cases hconstant : c.lookup? .constant name with
          | some s =>
              obtain ⟨hkey, hbind⟩ := bindName_of_constant hc htype hfunction hconstant
              have hproper := proper_of_constant hc hnames hname hconstant hkey
              have hrender : bindName c name = .constant s.qualifiedName := by
                simp only [bindName, htype, hfunction, hconstant]
              rw [hrender, render, parse_of_parsed (ParsedQuery.parse_name hproper), bind, hbind]
          | none =>
              cases hunique : uniqueType? c name with
              | some type =>
                  obtain ⟨s, hs, heq⟩ :=
                    Catalog.exists_lookupType?_of_uniqueType? hc hnames hunique
                  simp only [bindName, htype, hfunction, hconstant, hunique]
                  exact hdeclared hs heq
              | none =>
                  have hself : bindName c name = .type name := by
                    simp only [bindName, htype, hfunction, hconstant, hunique]
                    rfl
                  rw [hself, render, parse_of_parsed (ParsedQuery.parse_name hname), bind, hself]

/-- A member that is not marked as a method is bound to a query that is bound to itself when it is
rendered. -/
theorem bind_member_rebinds (hc : c.Owned) (hnames : c.WellNamed) {owner name : String}
    {kind : Option SymbolKind} (howner : Name.Proper .unicode owner)
    (hname : Alphabet.unicode.Identifier name)
    (hclass : Text.sameFolded name "class" = false) (hkind : kind = none ∨ kind = some .property) :
    parse c (bind c (.member owner name kind)).render = .ok (bind c (.member owner name kind)) := by
  have hproper := proper_bindOwner hc hnames howner
  have howner' := bindOwner_bindOwner hc hnames owner
  have hread : ∀ {text : String} {kind' : Option SymbolKind},
      ParsedQuery.MemberText text name kind' →
      parse c (Name.member (bindOwner c owner) text) =
        .ok (.member (bindOwner c owner) name
          (kind'.getD (bindKind c (bindOwner c owner) name))) := by
    intro text kind' htext
    rw [parse_of_parsed (ParsedQuery.parse_member hproper htext hname hclass), bind, howner']
  rw [bind]
  rcases hkind with rfl | rfl
  · cases hbound : bindKind c (bindOwner c owner) name with
    | property => exact hread (.property name)
    | _ => exact (hread (.unmarked name)).trans (by rw [hbound])
  · exact hread (.property name)

/-- Binding is idempotent through rendering: after any changes to a catalog whose types, functions
and global constants have proper names, take an accepted query string that is not written like
`Owner::method()`. The query that it is bound to, rendered, is an accepted query string again, and
it is bound to the same query. -/
theorem bound_again_after_render (changes : List Catalog.Change)
    (hnames : ∀ s, .declare s ∈ changes → s.WellNamed) {raw : String} {p : ParsedQuery}
    (hraw : ParsedQuery.parse .unicode raw = .ok p)
    (hform : ∀ owner name, p ≠ .member owner name (some .method)) :
    let c := Catalog.after changes
    parse c (bind c p).render = .ok (bind c p) := by
  intro c
  have hc : c.Owned := Catalog.owned_after changes
  have hnames : c.WellNamed := Catalog.wellNamed_after hnames
  obtain ⟨_, text, _, _, _, _, hspells⟩ := ParsedQuery.Spells.padded_of_parse hraw
  cases hspells with
  | plain hname => exact bindName_rebinds hc hnames hname.proper
  | function hname => exact parse_of_parsed (ParsedQuery.parse_call hname.proper)
  | member howner _ _ hmember hname hclass =>
      refine bind_member_rebinds hc hnames howner.proper hname hclass ?_
      cases hmember with
      | property => exact .inr rfl
      | method => exact absurd rfl (hform _ _)
      | unmarked => exact .inl rfl

/-- A class with a constant, a function and a global constant. -/
def widgets : List Symbol :=
  [.ofName (.type .classDecl) "App\\Ui\\Widget" ⟨0⟩, .ofName .constant "App\\Ui\\Widget::MAX" ⟨0⟩,
    .ofName .function "App\\helper" ⟨1⟩, .ofName .constant "App\\VERSION" ⟨1⟩]

/-- A constant is bound again under the whole name of its class. -/
theorem widget_max_bound_again :
    let c := Catalog.after (widgets.map .declare)
    parse c " widget :: MAX" = .ok (.member "App\\Ui\\Widget" "MAX" .constant) ∧
      parse c "App\\Ui\\Widget::MAX" = .ok (.member "App\\Ui\\Widget" "MAX" .constant) := by
  intro c
  have hnames : ∀ s, .declare s ∈ widgets.map Catalog.Change.declare → s.WellNamed := by
    intro s hs
    have hall : ∀ s ∈ widgets, s.WellNamed := by decide +kernel
    exact hall s (by simpa using hs)
  have hraw : ParsedQuery.parse .unicode " widget :: MAX" = .ok (.member "widget" "MAX" none) := by
    decide +kernel
  have hbind : bind c (.member "widget" "MAX" none) =
      .member "App\\Ui\\Widget" "MAX" .constant := by
    decide +kernel
  have hrender : (Query.member "App\\Ui\\Widget" "MAX" .constant).render =
      "App\\Ui\\Widget::MAX" := by
    decide
  have hagain : parse c (bind c (.member "widget" "MAX" none)).render =
      .ok (bind c (.member "widget" "MAX" none)) :=
    bound_again_after_render (widgets.map .declare) hnames hraw (by simp)
  rw [hbind, hrender] at hagain
  exact ⟨by rw [parse_of_parsed hraw, hbind], hagain⟩

end Query
end CrossReference
