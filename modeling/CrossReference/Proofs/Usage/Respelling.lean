import CrossReference.Proofs.Catalog.Members
import CrossReference.Proofs.Declaration.Provenance
import CrossReference.Proofs.Usage.Attribution

/-!
# Queries that are spelled differently

A query is compared with the names in a file, and the comparison ignores what the language ignores.
So two spellings of a query have the same sites. Only the evidence of a site of a member repeats the
name that was asked for.

* `Search.Respells` says when two member queries ask a search for the same: the member is the same
  up to what its kind ignores, and the types that are asked for matter only if there is no
  declaration.
* `Search.site?_asking` is the step from the one query to the other at one event, and
  `Search.sites_asking` follows the whole walk.
* `Search.sites_asking_function` is the same for functions.
-/

namespace CrossReference

open CrossReference.Tree

/-- The same evidence for another spelling of the member. -/
def MemberEvidence.respelled (name : String) (m : MemberEvidence) : MemberEvidence :=
  { m with name := name }

/-- The same site for another spelling of the member. -/
def Site.respelled (name : String) (site : Site) : Site :=
  { site with
    evidence :=
      { site.evidence with member := site.evidence.member.map (MemberEvidence.respelled name) } }

theorem SymbolKind.sameMember_congr {kind : SymbolKind} {name name' : String}
    (h : kind.sameMember name name' = true) (text : String) :
    kind.sameMember text name = kind.sameMember text name' := by
  rw [Bool.eq_iff_iff, sameMember_iff, sameMember_iff, sameMember_iff.1 h]

theorem Query.isConstructor_congr {kind : SymbolKind} {name name' : String}
    (h : kind.sameMember name name' = true) (owner owner' : String) :
    (Query.member owner name kind).isConstructor =
      (Query.member owner' name' kind).isConstructor := by
  cases kind with
  | method =>
      have hfold : Text.foldCase name = Text.foldCase name' := SymbolKind.sameMember_iff.1 h
      simp only [isConstructor, Name.isConstructor, Text.sameFolded, hfold]
  | type _ | function | property | constant => rfl

theorem Symbol.exists_splitLast?_of_owner {kind : SymbolKind} {name owner : String} {file : FileId}
    (h : (ofName kind name file).owner = some owner) :
    ∃ member, Text.splitLast? Name.memberMark name = some (owner, member) := by
  unfold ofName at h
  split at h
  · rename_i before member hsplit
    split at h
    · obtain rfl := Option.some.inj h
      exact ⟨member, hsplit⟩
    · exact absurd h (by simp)
  · exact absurd h (by simp)

namespace Search

/-- The same search with another query. -/
def asking (s : Search) (query : Query) : Search :=
  { s with query := query }

/-- Whether a search for a member of `owner` may as well ask for one of `owner'`. -/
structure Respells (s : Search) (owner name owner' name' : String) (kind : SymbolKind) : Prop where
  query : s.query = .member owner name kind
  unmarked : Name.IsUnmarked name
  unmarked' : Name.IsUnmarked name'
  same : kind.sameMember name name' = true
  below : s.declaration = none →
    ∀ type, s.catalog.isSameOrAncestor owner type = s.catalog.isSameOrAncestor owner' type

section Member

variable {s : Search} {owner name owner' name' : String} {kind : SymbolKind}

theorem Respells.isConstructor (h : s.Respells owner name owner' name' kind) :
    (s.asking (.member owner' name' kind)).query.isConstructor = s.query.isConstructor := by
  rw [h.query]
  exact (Query.isConstructor_congr h.same owner owner').symm

theorem Respells.findMember? (h : s.Respells owner name owner' name' kind) (type : String) :
    s.catalog.findMember? type name' kind = s.catalog.findMember? type name kind :=
  (s.catalog.findMember?_respelled h.unmarked h.unmarked' rfl h.same).symm

theorem memberOn?_asking (h : s.Respells owner name owner' name' kind) (type : String)
    (access : MemberAccess) :
    (s.asking (.member owner' name' kind)).memberOn? type access =
      (s.memberOn? type access).map (MemberEvidence.respelled name') := by
  have hconstructor := h.isConstructor
  unfold memberOn?
  rw [hconstructor, h.query]
  simp only [asking, h.findMember?]
  -- The types of the two queries are compared with that of the receiver in the last case only.
  rcases hdeclaration : s.declaration with _ | expected <;>
    rcases s.catalog.findMember? type name kind with _ | found
  · simp only [h.below hdeclaration type]
    by_cases hbelow : s.catalog.isSameOrAncestor owner' type = true
    · simp only [hbelow, if_true]
      split <;> rfl
    · simp [hbelow]
  · rfl
  · rfl
  · by_cases hkey : expected = found.key
    · simp only [if_pos hkey]
      rfl
    · simp only [if_neg hkey]
      rfl

theorem constructionSite?_asking (h : s.Respells owner name owner' name' kind) (p : Place)
    (target : ClassRef) :
    (s.asking (.member owner' name' kind)).constructionSite? p target =
      (s.constructionSite? p target).map (Site.respelled name') := by
  unfold constructionSite?
  rw [h.isConstructor]
  cases s.query.isConstructor with
  | false => rfl
  | true =>
      have hresolver : (s.asking (.member owner' name' kind)).resolver = s.resolver := rfl
      simp only [if_true, memberOn?_asking h, hresolver]
      cases (s.resolver.classValue p target).1.type with
      | none => rfl
      | some type =>
          simp only [Option.map_map]
          rfl

theorem nameMatch?_asking (h : s.Respells owner name owner' name' kind) (p : Place)
    (member : MemberName) :
    (s.asking (.member owner' name' kind)).nameMatch? p name' kind member =
      s.nameMatch? p name kind member := by
  unfold nameMatch?
  simp only [← SymbolKind.sameMember_congr h.same]
  rfl

theorem memberSite?_asking (h : s.Respells owner name owner' name' kind) (p : Place)
    (receiver : Receiver) (member : MemberName) (access : MemberAccess) (nullsafe : Bool) :
    (s.asking (.member owner' name' kind)).memberSite? p receiver member access nullsafe =
      (s.memberSite? p receiver member access nullsafe).map (Site.respelled name') := by
  unfold memberSite?
  rw [h.query,
    show (s.asking (.member owner' name' kind)).query = .member owner' name' kind from rfl]
  simp only [nameMatch?_asking h, memberOn?_asking h]
  split
  · cases s.nameMatch? p name kind member with
    | none => rfl
    | some found =>
        simp only [show (s.asking (.member owner' name' kind)).receiverValue p receiver =
          s.receiverValue p receiver from rfl]
        cases (s.receiverValue p receiver).1.type with
        | none =>
            simp only
            split <;> rfl
        | some type =>
            simp only [Option.map_map]
            rfl
  · rfl

theorem reflectedMember?_asking (h : s.Respells owner name owner' name' kind)
    (type : Option String) (text : String) (access : MemberAccess) (span : Span) :
    (s.asking (.member owner' name' kind)).reflectedMember? type text access span =
      (s.reflectedMember? type text access span).map (Site.respelled name') := by
  unfold reflectedMember?
  rw [h.query,
    show (s.asking (.member owner' name' kind)).query = .member owner' name' kind from rfl]
  simp only [← SymbolKind.sameMember_congr h.same, memberOn?_asking h]
  split
  · cases type with
    | none => rfl
    | some type =>
        simp only [Option.map_map]
        rfl
  · rfl

theorem mediatedMember?_asking (h : s.Respells owner name owner' name' kind) (type text : String)
    (origin : Origin) (span : Span) :
    (s.asking (.member owner' name' kind)).mediatedMember? type text origin span =
      (s.mediatedMember? type text origin span).map (Site.respelled name') := by
  unfold mediatedMember?
  rw [h.query,
    show (s.asking (.member owner' name' kind)).query = .member owner' name' kind from rfl]
  simp only [← SymbolKind.sameMember_congr h.same, memberOn?_asking h]
  split
  · simp only [Option.map_map]
    rfl
  · rfl

theorem callableSite?_asking (h : s.Respells owner name owner' name' kind) (v : Value)
    (span : Span) (reflective : Bool) :
    (s.asking (.member owner' name' kind)).callableSite? v span reflective =
      (s.callableSite? v span reflective).map (Site.respelled name') := by
  unfold callableSite?
  simp only [reflectedMember?_asking h, mediatedMember?_asking h]
  cases knownText? v with
  | none => rfl
  | some text =>
      simp only
      cases Text.splitFirst? Name.memberMark text with
      | some parts =>
          simp only
          split <;> rfl
      | none =>
          rw [h.query]
          rfl

theorem reflectedConstant?_asking (h : s.Respells owner name owner' name' kind) (text : String)
    (span : Span) :
    (s.asking (.member owner' name' kind)).reflectedConstant? text span =
      (s.reflectedConstant? text span).map (Site.respelled name') := by
  unfold reflectedConstant?
  simp only [reflectedMember?_asking h]
  cases Text.splitFirst? Name.memberMark text with
  | some parts => rfl
  | none =>
      rw [h.query]
      rfl

theorem indirectSite?_asking (h : s.Respells owner name owner' name' kind) (p : Place)
    (word : Word) (args : List Expr) :
    (s.asking (.member owner' name' kind)).indirectSite? p word args =
      (s.indirectSite? p word args).map (Site.respelled name') := by
  unfold indirectSite?
  simp only [reflectedMember?_asking h, reflectedConstant?_asking h, callableSite?_asking h,
    show (s.asking (.member owner' name' kind)).resolver = s.resolver from rfl]
  cases indirectTarget? (Name.key word.text) args with
  | none => rfl
  | some target =>
      simp only
      cases knownText? (s.resolver.value p target.2) with
      | none => rfl
      | some text =>
          cases target.1 with
          | some object => rfl
          | none =>
              simp only
              split <;> rfl

/-- An event is the same site, up to the spelling of the member. -/
theorem site?_asking (h : s.Respells owner name owner' name' kind) (e : Event) :
    (s.asking (.member owner' name' kind)).site? e = (s.site? e).map (Site.respelled name') := by
  have hquery : (s.asking (.member owner' name' kind)).query = .member owner' name' kind := rfl
  obtain ⟨p, reference⟩ := e
  cases reference with
  | construction target => exact constructionSite?_asking h p target
  | member receiver member access nullsafe =>
      exact memberSite?_asking h p receiver member access nullsafe
  | callValue callee => exact callableSite?_asking h _ _ _
  | call word args =>
      have hfunction : s.functionSite? p.context word = none := by simp [functionSite?, h.query]
      have hfunction' : (s.asking (.member owner' name' kind)).functionSite? p.context word =
          none := by
        simp [functionSite?, hquery]
      simp only [site?, indirectSite?_asking h, hfunction, hfunction']
      change (if s.settings.isIndirectCall word.text = true then _ else _) = _
      split <;> rfl
  | imported family word =>
      simp [site?, importSite?_eq_none hquery, importSite?_eq_none h.query]
  | typeName word role => simp [site?, typeNameSite?, hquery, h.query]
  | operand target role =>
      have hnone := operandSite?_eq_none (s := s) (by simp [h.query]) p role target
      have hnone' := operandSite?_eq_none (s := s.asking (.member owner' name' kind))
        (by simp [hquery]) p role target
      simp [site?, hnone, hnone']
  | constant word => simp [site?, constantSite?, hquery, h.query]
  | typeBody => rfl

theorem sites_asking (h : s.Respells owner name owner' name' kind) (stmts : List Stmt) :
    (s.asking (.member owner' name' kind)).sites stmts =
      (s.sites stmts).map fun found => (found.1, found.2.respelled name') := by
  unfold sites
  rw [List.map_filterMap]
  refine List.filterMap_congr fun e _ => ?_
  rw [site?_asking h, Option.map_map, Option.map_map]
  rfl

end Member

/-! ## The type through which a member is asked for -/

theorem ofQuery_asking {c : Catalog} {query query' : Query}
    (h : declarationOf c query = declarationOf c query') (settings : Settings) :
    (ofQuery c settings query).asking query' = ofQuery c settings query' := by
  unfold asking ofQuery
  rw [h]

/-- A declared member may be asked for through any type that has it: for every catalog and settings,
a query for a member of a type that declares or inherits it has the same sites as the query for that
member of its owner, in the same order and with the same evidence. The owner is the one that the
qualified name of the declaration spells, which `Declarations.owner_of_mem_symbols` says of all
symbols that are collected. -/
theorem sites_same_through_owner (changes : List Catalog.Change) (settings : Settings)
    (f : SourceFile) {type member owner : String} {kind : SymbolKind} {d : Symbol}
    (hmember : Text.Alphabet.unicode.isIdentifier member.toList = true)
    (hfound : (Catalog.after changes).findMember? type member kind = some d)
    (howner : (Symbol.ofName d.kind d.qualifiedName d.file).owner = some owner) :
    (ofQuery (.after changes) settings (.member type member kind)).sites f.stmts =
      (ofQuery (.after changes) settings (.member owner member kind)).sites f.stmts := by
  have hunmarked := Name.isUnmarked_of_isIdentifier hmember
  obtain ⟨own, hsplit⟩ := Symbol.exists_splitLast?_of_owner howner
  have hfoundOwner : (Catalog.after changes).findMember? owner member kind = some d :=
    Catalog.findMember?_owner (Catalog.owned_after changes) hunmarked hfound hsplit
  have hdeclaration : (ofQuery (.after changes) settings (.member type member kind)).declaration =
      some d.key := by
    rw [declaration_ofQuery, hfound, Option.map_some]
  -- There is a declaration, so no type is compared with that of the query.
  have hrespells : ∀ other, (ofQuery (.after changes) settings
      (.member type member kind)).Respells type member other member kind := fun other =>
    { query := rfl, unmarked := hunmarked, unmarked' := hunmarked
      same := SymbolKind.sameMember_iff.2 rfl
      below := fun hnone => absurd (hnone.symm.trans hdeclaration) (by simp) }
  have hself : (ofQuery (.after changes) settings (.member type member kind)).asking
      (.member type member kind) = ofQuery (.after changes) settings (.member type member kind) :=
    ofQuery_asking rfl settings
  have hother : (ofQuery (.after changes) settings (.member type member kind)).asking
      (.member owner member kind) = ofQuery (.after changes) settings (.member owner member kind) :=
    ofQuery_asking (by simp [declarationOf, hfound, hfoundOwner]) settings
  calc (ofQuery (.after changes) settings (.member type member kind)).sites f.stmts
      = ((ofQuery (.after changes) settings (.member type member kind)).sites f.stmts).map
          fun found => (found.1, found.2.respelled member) := by
        rw [← sites_asking (hrespells type), hself]
    _ = (ofQuery (.after changes) settings (.member owner member kind)).sites f.stmts := by
        rw [← sites_asking (hrespells owner), hother]

/-- What is collected from the drawings. -/
def drawnSymbols : List Symbol :=
  (Declarations.collect ⟨0⟩ (.ofText drawings.text) drawings.stmts).symbols

/-- The classes of the drawings, with other spellings in the edges. -/
def drawnClasses : List Catalog.Change :=
  drawnSymbols.map .declare ++
    [.relate "plain" "BASE" .extending, .relate "Fancy" "Base" .extending]

/-- The method that one of the classes inherits is the same through that class and through its
owner. -/
theorem plain_draw_same_through_base :
    let s := ofQuery (.after drawnClasses) {} (.member "\\PLAIN" "DRAW" .method)
    ((Catalog.after drawnClasses).findMember? "\\PLAIN" "DRAW" .method).bind Symbol.owner =
        some "Base" ∧
      (s.sites drawings.stmts).map (fun found => found.2.evidence.receiverType) =
        [some "Plain", none] ∧
      s.sites drawings.stmts =
        (ofQuery (.after drawnClasses) {} (.member "Base" "DRAW" .method)).sites
          drawings.stmts := by
  have hfound : (Catalog.after drawnClasses).findMember? "\\PLAIN" "DRAW" .method =
      drawnSymbols[1]? := by
    decide +kernel
  have howner : drawnSymbols[1]?.bind Symbol.owner = some "Base" := by decide +kernel
  obtain ⟨d, hd, hbase⟩ := Option.bind_eq_some_iff.1 howner
  have hcollected := Declarations.owner_of_mem_symbols (List.mem_of_getElem? hd)
  refine ⟨hfound ▸ howner, by decide +kernel, ?_⟩
  exact sites_same_through_owner drawnClasses {} drawings (by decide +kernel) (hfound.trans hd)
    (hcollected.symm.trans hbase)

/-! ## Functions -/

section Function

variable {s : Search} {name name' : String}

theorem sameName_function_congr (h : Name.same name name' = true) (text : String) :
    NameKind.function.sameName text name' = NameKind.function.sameName text name := by
  unfold NameKind.sameName Name.same
  rw [Name.same_iff.1 h]

/-- A search for a function refers to no member. -/
theorem reflectedMember?_of_function (hquery : s.query = .function name) (type : Option String)
    (text : String) (access : MemberAccess) (span : Span) :
    s.reflectedMember? type text access span = none := by
  unfold reflectedMember?
  rw [hquery]

theorem mediatedMember?_of_function (hquery : s.query = .function name) (type text : String)
    (origin : Origin) (span : Span) : s.mediatedMember? type text origin span = none := by
  unfold mediatedMember?
  rw [hquery]

theorem reflectedConstant?_of_function (hquery : s.query = .function name) (text : String)
    (span : Span) : s.reflectedConstant? text span = none := by
  unfold reflectedConstant?
  split
  · exact reflectedMember?_of_function hquery _ _ _ _
  · rw [hquery]

theorem callableSite?_asking_function (hquery : s.query = .function name)
    (h : Name.same name name' = true) (v : Value) (span : Span) (reflective : Bool) :
    (s.asking (.function name')).callableSite? v span reflective =
      s.callableSite? v span reflective := by
  have hquery' : (s.asking (.function name')).query = .function name' := rfl
  unfold callableSite?
  simp only [reflectedMember?_of_function hquery, reflectedMember?_of_function hquery',
    mediatedMember?_of_function hquery, mediatedMember?_of_function hquery', hquery, hquery',
    sameName_function_congr h]

theorem indirectSite?_asking_function (hquery : s.query = .function name)
    (h : Name.same name name' = true) (p : Place) (word : Word) (args : List Expr) :
    (s.asking (.function name')).indirectSite? p word args = s.indirectSite? p word args := by
  have hquery' : (s.asking (.function name')).query = .function name' := rfl
  unfold indirectSite?
  simp only [reflectedMember?_of_function hquery, reflectedMember?_of_function hquery',
    reflectedConstant?_of_function hquery, reflectedConstant?_of_function hquery',
    callableSite?_asking_function hquery h]
  rfl

theorem importSite?_asking_function (hquery : s.query = .function name)
    (h : Name.same name name' = true) (family : NameKind) (word : Word) :
    (s.asking (.function name')).importSite? family word = s.importSite? family word := by
  unfold importSite?
  rw [hquery, show (s.asking (.function name')).query = .function name' from rfl]
  cases family with
  | function => simp only [sameName_function_congr h]
  | classLike => rfl
  | constant => rfl

/-- An event is the same site. -/
theorem site?_asking_function (hquery : s.query = .function name)
    (h : Name.same name name' = true) (e : Event) :
    (s.asking (.function name')).site? e = s.site? e := by
  have hquery' : (s.asking (.function name')).query = .function name' := rfl
  obtain ⟨p, reference⟩ := e
  cases reference with
  | imported family word => exact importSite?_asking_function hquery h family word
  | callValue callee => exact callableSite?_asking_function hquery h _ _ _
  | call word args =>
      have hcall : (s.asking (.function name')).functionSite? p.context word =
          s.functionSite? p.context word := by
        unfold functionSite?
        simp only [hquery, hquery', Resolved.denotes, sameName_function_congr h]
        rfl
      simp only [site?, indirectSite?_asking_function hquery h, hcall]
      rfl
  | construction target =>
      simp [site?, constructionSite?, hquery, hquery', Query.isConstructor]
  | member receiver member access nullsafe => simp [site?, memberSite?, hquery, hquery']
  | typeName word role => simp [site?, typeNameSite?, hquery, hquery']
  | operand target role =>
      have hnone := operandSite?_eq_none (s := s) (by simp [hquery]) p role target
      have hnone' := operandSite?_eq_none (s := s.asking (.function name'))
        (by simp [hquery']) p role target
      exact hnone'.trans hnone.symm
  | constant word => simp [site?, constantSite?, hquery, hquery']
  | typeBody => rfl

theorem sites_asking_function (hquery : s.query = .function name)
    (h : Name.same name name' = true) (stmts : List Stmt) :
    (s.asking (.function name')).sites stmts = s.sites stmts := by
  unfold sites
  simp only [site?_asking_function hquery h]
  rfl

end Function

end Search
end CrossReference
