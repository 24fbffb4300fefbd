import CrossReference.Proofs.Tree.Mentions
import CrossReference.Proofs.Workspace.Calls
import CrossReference.Usage.Confidence

/-!
# What a site of a member is attributed to

A member is searched for through a type. Its sites come about in several ways: a new object runs its
constructor, a member is accessed by a written or a computed name, a function is told a member by
its arguments, or a string that names a member is called. All of these look the member up on the
type of the receiver in the same way, or have nothing to go by but the name.

* `Search.Tied` says which of the two it was, and `Search.tied_site?` says it of every site.
* `Search.memberOn?_eq_some` reads the lookup on the type of the receiver.
* `Search.member_sites_attributed` says what every site of a member is attributed to.
* `Search.undeclared_member_sites_dynamic` says that an undeclared member has dynamic sites only.
-/

namespace CrossReference

open CrossReference.Tree

namespace Search

/-- How a site is tied to the member `name` that is searched for: by the type of its receiver, on
which the member was looked up, or by nothing but the name. -/
inductive Tied (s : Search) (name : String) (site : Site) : Prop where
  | byType (type : String) (access : MemberAccess) (found : MemberEvidence)
      (hfound : s.memberOn? type access = some found)
      (htype : site.evidence.receiverType = some type)
      (hmember : site.evidence.member = some found)
  | byName (access : MemberAccess)
      (htype : site.evidence.receiverType = none)
      (hmember : site.evidence.member = some (s.memberByName name access))
      (hkind : site.kind = .dynamicCall)
      (hweak : site.evidence.receiver = some .untraceable ∨ site.evidence.reflective = true)

/-- A type has a site only if a type is asked for. -/
theorem operandSite?_eq_none {s : Search} (hquery : ∀ subject, s.query ≠ .type subject) (p : Place)
    (role : UsageKind) (target : ClassRef) : s.operandSite? p role target = none := by
  have hkeyword : ∀ type span, s.keywordSite? type role span = none := by
    intro type span
    unfold keywordSite?
    split
    · rename_i subject _ hsubject
      exact absurd hsubject (hquery subject)
    · rfl
  cases target with
  | named word =>
      change s.typeNameSite? p.context word role = none
      unfold typeNameSite?
      split
      · rename_i subject hsubject
        exact absurd hsubject (hquery subject)
      · rfl
  | selfType span => exact hkeyword _ span
  | staticType span => exact hkeyword _ span
  | parentType span => exact hkeyword _ span
  | dynamic e =>
      change s.dynamicClassSite? p e role = none
      unfold dynamicClassSite?
      simp only
      split
      · rename_i subject _ hsubject _
        exact absurd hsubject (hquery subject)
      · rfl

section Ties

variable {s : Search} {owner name : String} {kind : SymbolKind}
  (hquery : s.query = .member owner name kind)
include hquery

omit hquery in
theorem tied_constructionSite? {p : Place} {target : ClassRef} {site : Site}
    (h : s.constructionSite? p target = some site) : s.Tied name site := by
  unfold constructionSite? at h
  split at h
  · simp only at h
    split at h
    · exact absurd h (by simp)
    · rename_i type htype
      obtain ⟨found, hfound, rfl⟩ := Option.map_eq_some_iff.1 h
      exact .byType type .instanceMethod found hfound rfl rfl
  · exact absurd h (by simp)

theorem tied_memberSite? {p : Place} {receiver : Receiver} {member : MemberName}
    {access : MemberAccess} {nullsafe : Bool} {site : Site}
    (h : s.memberSite? p receiver member access nullsafe = some site) : s.Tied name site := by
  unfold memberSite? at h
  rw [hquery] at h
  simp only at h
  split at h
  · split at h
    · exact absurd h (by simp)
    · split at h
      · -- Nothing is known of the receiver.
        split at h
        · exact absurd h (by simp)
        · obtain rfl := Option.some.inj h
          exact .byName access rfl rfl rfl (.inl rfl)
      · rename_i type htype
        obtain ⟨found, hfound, rfl⟩ := Option.map_eq_some_iff.1 h
        exact .byType type access found hfound rfl rfl
  · exact absurd h (by simp)

theorem tied_reflectedMember? {type : Option String} {text : String} {access : MemberAccess}
    {span : Span} {site : Site} (h : s.reflectedMember? type text access span = some site) :
    s.Tied name site := by
  unfold reflectedMember? at h
  rw [hquery] at h
  simp only at h
  split at h
  · obtain ⟨found, hfound, rfl⟩ := Option.map_eq_some_iff.1 h
    cases type with
    | none =>
        obtain rfl := Option.some.inj hfound
        exact .byName access rfl rfl rfl (.inr rfl)
    | some type => exact .byType type access found hfound rfl rfl
  · exact absurd h (by simp)

theorem tied_mediatedMember? {type text : String} {origin : Origin} {span : Span} {site : Site}
    (h : s.mediatedMember? type text origin span = some site) : s.Tied name site := by
  unfold mediatedMember? at h
  rw [hquery] at h
  simp only at h
  split at h
  · obtain ⟨found, hfound, rfl⟩ := Option.map_eq_some_iff.1 h
    exact .byType type .staticMethod found hfound rfl rfl
  · exact absurd h (by simp)

theorem tied_callableSite? {v : Value} {span : Span} {reflective : Bool} {site : Site}
    (h : s.callableSite? v span reflective = some site) : s.Tied name site := by
  unfold callableSite? at h
  split at h
  · exact absurd h (by simp)
  · split at h
    · split at h
      · exact tied_reflectedMember? hquery h
      · exact tied_mediatedMember? hquery h
    · -- A string without a member mark names a function.
      rw [hquery] at h
      exact absurd h (by simp)

theorem tied_reflectedConstant? {text : String} {span : Span} {site : Site}
    (h : s.reflectedConstant? text span = some site) : s.Tied name site := by
  unfold reflectedConstant? at h
  split at h
  · exact tied_reflectedMember? hquery h
  · rw [hquery] at h
    exact absurd h (by simp)

theorem tied_indirectSite? {p : Place} {word : Word} {args : List Expr} {site : Site}
    (h : s.indirectSite? p word args = some site) : s.Tied name site := by
  unfold indirectSite? at h
  simp only at h
  split at h
  · exact absurd h (by simp)
  · split at h
    · exact absurd h (by simp)
    · split at h
      · exact tied_reflectedMember? hquery h
      · split at h
        · exact tied_reflectedConstant? hquery h
        · exact tied_callableSite? hquery h

/-- What the lookup on the type of a receiver tells: it finds the declaration that the query found,
or neither found one and the type of the query is the type itself or above it. -/
theorem memberOn?_eq_some {type : String} {access : MemberAccess} {found : MemberEvidence}
    (h : s.memberOn? type access = some found) :
    (∃ onReceiver, s.catalog.findMember? type name kind = some onReceiver ∧
        s.declaration = some onReceiver.key ∧ found.declared = true) ∨
      s.catalog.findMember? type name kind = none ∧ s.declaration = none ∧
        s.catalog.isSameOrAncestor owner type = true ∧
        found.declared = s.query.isConstructor := by
  unfold memberOn? at h
  rw [hquery] at h
  simp only at h
  split at h
  · rename_i expected onReceiver hexpected hreceiver
    split at h
    · rename_i hkey
      obtain rfl := Option.some.inj h
      exact .inl ⟨onReceiver, hreceiver, hkey ▸ hexpected, rfl⟩
    · exact absurd h (by simp)
  · rename_i hexpected hreceiver
    split at h
    · rename_i habove
      refine .inr ⟨hreceiver, hexpected, habove, ?_⟩
      -- Every type has a constructor, whether or not it is declared.
      split at h
      · rename_i hconstructor
        obtain rfl := Option.some.inj h
        rw [hquery, hconstructor]
      · rename_i hconstructor
        obtain rfl := Option.some.inj h
        rw [hquery]
        exact (Bool.eq_false_iff.2 hconstructor).symm
    · exact absurd h (by simp)
  · exact absurd h (by simp)

theorem importSite?_eq_none (family : NameKind) (word : Word) :
    s.importSite? family word = none := by
  unfold importSite?
  rw [hquery]
  cases family <;> rfl

/-- Every site of a member is tied to it in one of the two ways. -/
theorem tied_site? {e : Event} {site : Site} (h : s.site? e = some site) : s.Tied name site := by
  obtain ⟨p, reference⟩ := e
  cases reference with
  | construction target => exact tied_constructionSite? h
  | member receiver member access nullsafe => exact tied_memberSite? hquery h
  | callValue callee => exact tied_callableSite? hquery h
  | call word args =>
      unfold site? at h
      simp only at h
      split at h
      · exact tied_indirectSite? hquery h
      · exact absurd h (by simp [functionSite?, hquery])
  -- The other nodes refer to types, imports and constants.
  | imported family word => exact absurd h (by simp [site?, importSite?_eq_none hquery])
  | typeName word role => exact absurd h (by simp [site?, typeNameSite?, hquery])
  | operand target role =>
      exact absurd h (by simp [site?, operandSite?_eq_none (s := s) (by simp [hquery])])
  | constant word => exact absurd h (by simp [site?, constantSite?, hquery])
  | typeBody => exact absurd h (by simp [site?])

end Ties

theorem mem_sites_iff {s : Search} {stmts : List Stmt} {ctx : Context} {site : Site} :
    (ctx, site) ∈ s.sites stmts ↔
      ∃ e ∈ eventsOf s.resolver s.settings.hopLimit stmts,
        s.site? e = some site ∧ e.place.context = ctx := by
  unfold sites
  rw [List.mem_filterMap]
  constructor
  · rintro ⟨e, he, hsite⟩
    obtain ⟨found, hfound, hpair⟩ := Option.map_eq_some_iff.1 hsite
    obtain ⟨rfl, rfl⟩ := Prod.mk.inj hpair
    exact ⟨e, he, hfound, rfl⟩
  · rintro ⟨e, he, hfound, rfl⟩
    exact ⟨e, he, Option.map_eq_some_iff.2 ⟨site, hfound, rfl⟩⟩

end Search

/-! ## Confidence in the sites of a member -/

theorem Confidence.worse_dynamic (tier : Confidence) : tier.worse .dynamic = .dynamic := by
  cases tier <;> rfl

theorem Confidence.dynamic_worse (tier : Confidence) : dynamic.worse tier = .dynamic := by
  cases tier <;> rfl

theorem Confidence.foldl_worse_dynamic (origins : List Origin) :
    origins.foldl (fun tier origin => tier.worse (.ofOrigin origin)) dynamic = .dynamic := by
  induction origins with
  | nil => rfl
  | cons origin rest ih => rw [List.foldl_cons, dynamic_worse, ih]

namespace Site

theorem confidence_of_isDynamic {site : Site} {ctx : Context} (h : site.isDynamic ctx = true) :
    site.confidence ctx = .dynamic := by
  unfold confidence
  rw [if_pos h]

/-- A site with an untraceable receiver has no tier above dynamic. -/
theorem confidence_of_untraceable {site : Site} (ctx : Context)
    (h : site.evidence.receiver = some .untraceable) : site.confidence ctx = .dynamic := by
  unfold confidence
  split
  · rfl
  · rw [h, Option.toList_some, List.singleton_append, List.foldl_cons]
    rw [show Confidence.ofOrigin .untraceable = .dynamic from rfl, Confidence.worse_dynamic]
    exact Confidence.foldl_worse_dynamic _

theorem isDynamic_of_reflective {site : Site} (ctx : Context)
    (h : site.evidence.reflective = true) : site.isDynamic ctx = true := by
  simp [isDynamic, h]

theorem isDynamic_of_undeclared {site : Site} (ctx : Context) {found : MemberEvidence}
    (hmember : site.evidence.member = some found) (hdeclared : found.declared = false) :
    site.isDynamic ctx = true := by
  simp [isDynamic, hmember, hdeclared]

end Site

namespace Search

theorem declaration_ofQuery (c : Catalog) (settings : Settings) (owner name : String)
    (kind : SymbolKind) : (ofQuery c settings (.member owner name kind)).declaration =
      (c.findMember? owner name kind).map Symbol.key := rfl

/-- What a site of the member `name` of `owner` is attributed to. -/
inductive Attribution (c : Catalog) (owner name : String) (kind : SymbolKind) (ctx : Context)
    (site : Site) : Prop where
  /-- The type of the receiver finds the declaration that `owner` finds. -/
  | declared (type : String) (found : MemberEvidence) (onReceiver onOwner : Symbol)
      (htype : site.evidence.receiverType = some type)
      (hmember : site.evidence.member = some found)
      (hreceiver : c.findMember? type name kind = some onReceiver)
      (howner : c.findMember? owner name kind = some onOwner)
      (hkey : onReceiver.key = onOwner.key)
      (hdeclared : found.declared = true)
  /-- Neither finds a declaration, and `owner` is the type of the receiver or above it. Of such
  members only a constructor counts as declared. -/
  | undeclared (type : String) (found : MemberEvidence)
      (htype : site.evidence.receiverType = some type)
      (hmember : site.evidence.member = some found)
      (hreceiver : c.findMember? type name kind = none)
      (howner : c.findMember? owner name kind = none)
      (habove : c.isSameOrAncestor owner type = true)
      (hdeclared : found.declared = (Query.member owner name kind).isConstructor)
  /-- No type of the receiver is known. -/
  | unknown
      (htype : site.evidence.receiverType = none)
      (hkind : site.kind = .dynamicCall)
      (hconfidence : site.confidence ctx = .dynamic)

/-- Every site of a member is attributed to it in one of the three ways. So a receiver whose type
declares the member itself is reported only if that is the declaration that `owner` has. -/
theorem member_sites_attributed (c : Catalog) (settings : Settings) (owner name : String)
    (kind : SymbolKind) (f : SourceFile) (ctx : Context) (site : Site)
    (h : (ctx, site) ∈ (ofQuery c settings (.member owner name kind)).sites f.stmts) :
    Attribution c owner name kind ctx site ∧
      ∀ type own, site.evidence.receiverType = some type →
        c.lookup? kind (Name.member type name) = some own →
        ∃ onOwner, c.findMember? owner name kind = some onOwner ∧ own.key = onOwner.key := by
  obtain ⟨e, _, hsite, _⟩ := mem_sites_iff.1 h
  have htied : (ofQuery c settings (.member owner name kind)).Tied name site :=
    tied_site? rfl hsite
  cases htied with
  | byType type access found hfound htype hmember =>
      have hlookup := memberOn?_eq_some rfl hfound
      simp only [declaration_ofQuery, Option.map_eq_some_iff, Option.map_eq_none_iff] at hlookup
      refine ⟨?_, ?_⟩
      · rcases hlookup with ⟨onReceiver, hreceiver, ⟨onOwner, howner, hkey⟩, hdeclared⟩ |
          ⟨hreceiver, howner, habove, hdeclared⟩
        · exact .declared type found onReceiver onOwner htype hmember hreceiver howner hkey.symm
            hdeclared
        · exact .undeclared type found htype hmember hreceiver howner habove hdeclared
      · intro type' own htype' hown
        obtain rfl : type = type' := Option.some.inj (htype.symm.trans htype')
        -- What a type declares itself is what the lookup on it finds.
        have hfind : c.findMember? type name kind = some own := by
          unfold Catalog.findMember?
          rw [hown]
        rcases hlookup with ⟨onReceiver, hreceiver, ⟨onOwner, howner, hkey⟩, _⟩ | ⟨hreceiver, _⟩
        · obtain rfl : onReceiver = own := Option.some.inj (hreceiver.symm.trans hfind)
          exact ⟨onOwner, howner, hkey.symm⟩
        · exact absurd (hreceiver.symm.trans hfind) (by simp)
  | byName access htype hmember hkind hweak =>
      have hconfidence : site.confidence ctx = .dynamic := by
        rcases hweak with hreceiver | hreflective
        · exact Site.confidence_of_untraceable ctx hreceiver
        · exact Site.confidence_of_isDynamic (Site.isDynamic_of_reflective ctx hreflective)
      refine ⟨.unknown htype hkind hconfidence, ?_⟩
      intro type own htype'
      exact absurd (htype.symm.trans htype') (by simp)

/-- A class with a method and a handler for undeclared methods, a class that inherits both, and a
class that overrides the method; then calls on objects of the latter two and on an unknown
object. -/
def drawings : SourceFile where
  path := "drawings.php"
  text := "class Base { function draw() {} function __call() {} } class Plain extends Base {} " ++
    "class Fancy extends Base { function draw() {} } (new Plain)->draw(); (new Fancy)->draw(); " ++
    "$any->draw(); (new Plain)->erase();"
  tree := some
    [.classLike (.mk .classDecl (some ⟨"Base", ⟨6, 10⟩⟩) [] []
      [.method ⟨"draw", ⟨22, 26⟩⟩ .everyone false [] none [],
        .method ⟨"__call", ⟨41, 47⟩⟩ .everyone false [] none []]),
     .classLike (.mk .classDecl (some ⟨"Plain", ⟨61, 66⟩⟩) [⟨"Base", ⟨75, 79⟩⟩] [] []),
     .classLike (.mk .classDecl (some ⟨"Fancy", ⟨89, 94⟩⟩) [⟨"Base", ⟨103, 107⟩⟩] []
      [.method ⟨"draw", ⟨119, 123⟩⟩ .everyone false [] none []]),
     .expr (.methodCall (.new (.named ⟨"Plain", ⟨136, 141⟩⟩) [] ⟨132, 141⟩)
      (.ident ⟨"draw", ⟨144, 148⟩⟩) [] false ⟨131, 150⟩),
     .expr (.methodCall (.new (.named ⟨"Fancy", ⟨157, 162⟩⟩) [] ⟨153, 162⟩)
      (.ident ⟨"draw", ⟨165, 169⟩⟩) [] false ⟨152, 171⟩),
     .expr (.methodCall (.var "any" ⟨173, 177⟩) (.ident ⟨"draw", ⟨179, 183⟩⟩) [] false ⟨173, 185⟩),
     .expr (.methodCall (.new (.named ⟨"Plain", ⟨192, 197⟩⟩) [] ⟨188, 197⟩)
      (.ident ⟨"erase", ⟨200, 205⟩⟩) [] false ⟨187, 207⟩)]

/-- What the file declares, linked. -/
def drawingsCatalog : Catalog :=
  (Workspace.after {} [.setFile drawings, .snapshot]).catalog

/-- The call on the class that inherits the method is attributed to it, the call on the class that
overrides it is no site, and the call on the unknown object is one without a type. -/
theorem inherited_draw_attributed :
    let sites := (ofQuery drawingsCatalog {} (.member "Base" "draw" .method)).sites drawings.stmts
    sites.map (fun found => found.2.evidence.receiverType) = [some "Plain", none] ∧
      ∃ found ∈ sites, found.2.evidence.receiverType = some "Plain" ∧
        Attribution drawingsCatalog "Base" "draw" .method found.1 found.2 := by
  intro sites
  have htypes : sites.map (fun found => found.2.evidence.receiverType) = [some "Plain", none] := by
    decide +kernel
  have hplain : some "Plain" ∈ sites.map (fun found => found.2.evidence.receiverType) := by
    rw [htypes]
    exact List.mem_cons_self
  obtain ⟨found, hfound, htype⟩ := List.mem_map.1 hplain
  exact ⟨htypes, found, hfound, htype, (member_sites_attributed drawingsCatalog {} "Base" "draw"
    .method drawings found.1 found.2 hfound).1⟩

/-- If `owner` neither declares nor inherits the member and it is no constructor, every site of it
has the worst confidence. -/
theorem undeclared_member_sites_dynamic (c : Catalog) (settings : Settings) (owner name : String)
    (kind : SymbolKind) (f : SourceFile) (hname : Name.isConstructor name = false)
    (hundeclared : c.findMember? owner name kind = none) (ctx : Context) (site : Site)
    (h : (ctx, site) ∈ (ofQuery c settings (.member owner name kind)).sites f.stmts) :
    site.confidence ctx = .dynamic := by
  obtain ⟨e, _, hsite, _⟩ := mem_sites_iff.1 h
  have htied : (ofQuery c settings (.member owner name kind)).Tied name site :=
    tied_site? rfl hsite
  have hnone : (ofQuery c settings (.member owner name kind)).declaration = none := by
    rw [declaration_ofQuery, hundeclared, Option.map_none]
  have hconstructor : (Query.member owner name kind).isConstructor = false := by
    cases kind with
    | method => exact hname
    | type _ => rfl
    | function => rfl
    | property => rfl
    | constant => rfl
  -- Whichever way the site is tied to the member, its evidence says that it is undeclared.
  have hevidence : ∃ found, site.evidence.member = some found ∧ found.declared = false := by
    cases htied with
    | byType type access found hfound _ hmember =>
        refine ⟨found, hmember, ?_⟩
        rcases memberOn?_eq_some rfl hfound with ⟨onReceiver, _, hsome, _⟩ | ⟨_, _, _, hdeclared⟩
        · exact absurd (hnone.symm.trans hsome) (by simp)
        · exact hdeclared.trans hconstructor
    | byName access _ hmember _ _ =>
        refine ⟨_, hmember, ?_⟩
        exact Option.isSome_eq_false_iff.2 (Option.isNone_iff_eq_none.2 hnone)
  obtain ⟨found, hmember, hdeclared⟩ := hevidence
  exact Site.confidence_of_isDynamic (Site.isDynamic_of_undeclared ctx hmember hdeclared)

/-- A call that only a handler takes is found, through the type of its receiver, and is dynamic. -/
theorem handled_erase_dynamic :
    let sites := (ofQuery drawingsCatalog {} (.member "Base" "erase" .method)).sites drawings.stmts
    sites.map (fun found => found.2.evidence.receiverType) = [some "Plain"] ∧
      ∃ found ∈ sites, found.2.confidence found.1 = .dynamic := by
  intro sites
  have htypes : sites.map (fun found => found.2.evidence.receiverType) = [some "Plain"] := by
    decide +kernel
  have hplain : some "Plain" ∈ sites.map (fun found => found.2.evidence.receiverType) := by
    rw [htypes]
    exact List.mem_cons_self
  obtain ⟨found, hfound, _⟩ := List.mem_map.1 hplain
  have hundeclared : drawingsCatalog.findMember? "Base" "erase" .method = none := by
    decide +kernel
  exact ⟨htypes, found, hfound, undeclared_member_sites_dynamic drawingsCatalog {} "Base" "erase"
    .method drawings (by decide +kernel) hundeclared found.1 found.2 hfound⟩

end Search
end CrossReference
