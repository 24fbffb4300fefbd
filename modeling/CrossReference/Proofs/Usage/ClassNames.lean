import CrossReference.Proofs.Scope.Decided
import CrossReference.Proofs.Usage.Attribution
import CrossReference.Proofs.Usage.Landmarks

/-!
# Class names are reported

A search for a type reports each name that stands for the type, wherever the name stands. There is
one exception. Names of builtin types are passed over, since in a type they are keywords; but
several of them are no keywords anywhere else, and a class can bear such a name.

* `Search.site?_of_use?` says that every class name is matched in the same way.
* `Search.typeNameSite?_of_resolve` matches a name that is not spelled like a builtin type.
* `Search.class_names_reported_iff` says for which spellings every class name is reported.
-/

namespace CrossReference

open CrossReference.Tree

namespace Name

/-- Names of builtin types are plain words, and none of them stands for a type of its
surroundings. -/
theorem plain_of_isBuiltinType {name : String} (h : isBuiltinType name = true) :
    name.toList ≠ [] ∧ (∀ c ∈ name.toList, isSeparator c = false) ∧
      isSelfKeyword name = false ∧ isParentKeyword name = false := by
  obtain ⟨builtin, hmem, hsame⟩ := List.any_eq_true.1 h
  have hfold : Text.foldCase name = Text.foldCase builtin := (Text.sameFolded_iff.1 hsame).symm
  have hall : ∀ t ∈ builtinTypes,
      (Text.foldCase t).toList ≠ [] ∧ separator ∉ (Text.foldCase t).toList ∧
        isSelfKeyword t = false ∧ isParentKeyword t = false := by
    decide +kernel
  obtain ⟨hne, hseparator, hself, hparent⟩ := hall builtin hmem
  rw [← hfold, Text.toList_foldCase] at hne hseparator
  refine ⟨?_, ?_, ?_, ?_⟩
  · intro hnil
    exact hne (by rw [hnil]; rfl)
  · intro c hc
    rw [Bool.eq_false_iff]
    intro hsep
    have hc' : c = separator := by simpa [isSeparator] using hsep
    subst hc'
    exact hseparator (List.mem_map.2 ⟨separator, hc, by decide⟩)
  · unfold isSelfKeyword Text.sameFolded at hself ⊢
    rw [hfold]
    exact hself
  · unfold isParentKeyword Text.sameFolded at hparent ⊢
    rw [hfold]
    exact hparent

end Name

namespace Resolver

/-- What a keyword stands for when it is resolved. -/
theorem keyword_of_resolve {r : Resolver} {ctx : Context} {raw n : String}
    (h : r.resolve ctx .classLike raw = .qualified n) :
    (Name.isSelfKeyword raw = true → r.selfType? ctx = some n) ∧
      (Name.isSelfKeyword raw = false → Name.isParentKeyword raw = true →
        r.parentType? ctx = some n) := by
  unfold resolve at h
  split at h
  · exact absurd h (by simp)
  · constructor
    · intro hself
      simp only [resolveKeyword?, hself, if_true, Option.getD_some] at h
      cases htype : r.selfType? ctx with
      | none => simp [htype] at h
      | some type => simpa [htype] using h
    · intro hself hparent
      simp only [resolveKeyword?, hself, hparent, Bool.false_eq_true, if_false, if_true,
        Option.getD_some] at h
      cases htype : r.parentType? ctx with
      | none => simp [htype] at h
      | some type => simpa [htype] using h

/-- An alias spelled like a builtin type is resolved like any other. -/
theorem resolve_alias_of_isBuiltinType (r : Resolver) (ctx : Context) {raw target : String}
    (hraw : Name.isBuiltinType raw = true)
    (halias : ctx.imports.target? .classLike raw = some target) :
    r.resolve ctx .classLike raw = .qualified target := by
  obtain ⟨hne, hseparator, hself, hparent⟩ := Name.plain_of_isBuiltinType hraw
  have hbare : Name.bare raw ≠ "" := by
    rw [Name.bare_of_plain hseparator]
    rintro rfl
    exact hne rfl
  have habsolute : Text.stripStart? (String.ofList [Name.separator]) raw = none := by
    refine Text.stripStart?_eq_none_iff.2 ?_
    rintro rest rfl
    have hfirst := hseparator Name.separator (by simp)
    exact absurd hfirst (by decide)
  rw [r.resolve_eq_resolveReading ctx hbare fun _ => ⟨hself, hparent⟩]
  simp only [resolveReading, Reading.ofName, habsolute, halias]

end Resolver

/-- The name stands for the type `subject` at its place. -/
def Occurrence.StandsFor (o : Occurrence) (r : Resolver) (subject : String) : Prop :=
  ∃ n, r.resolve o.context .classLike o.name.text = .qualified n ∧ Name.same n subject = true

namespace Search

/-- Every class name is matched in the same way, whatever its position. -/
theorem site?_of_use? (s : Search) {e : Event} {u : NameUse} (h : e.use? = some u)
    (hkind : u.kind = .classLike) :
    e.place.context = u.context ∧ s.site? e = s.typeNameSite? u.context u.name u.role := by
  obtain ⟨place, reference⟩ := e
  cases reference with
  | typeName name role =>
      cases h
      exact ⟨rfl, rfl⟩
  | operand target role =>
      cases target with
      | named name =>
          cases h
          exact ⟨rfl, rfl⟩
      | _ => exact absurd h (by simp [Event.use?])
  | call name args =>
      cases h
      exact absurd hkind (by simp)
  | constant name =>
      cases h
      exact absurd hkind (by simp)
  | _ => exact absurd h (by simp [Event.use?])

/-- A name that is not spelled like a builtin type is matched with the type that it stands for. -/
theorem typeNameSite?_of_resolve {s : Search} {subject : String} (hquery : s.query = .type subject)
    {ctx : Context} {name : Word} {n : String} (role : UsageKind)
    (hname : Name.isBuiltinType name.text = false)
    (hresolve : s.resolver.resolve ctx .classLike name.text = .qualified n)
    (hsame : Name.same n subject = true) :
    ∃ site, s.typeNameSite? ctx name role = some site ∧ site.kind = role ∧
      site.span = name.span := by
  obtain ⟨hself, hparent⟩ := Resolver.keyword_of_resolve hresolve
  have hkeyword : ∃ site, s.keywordSite? (some n) role name.span = some site ∧ site.kind = role ∧
      site.span = name.span := by
    unfold keywordSite?
    rw [hquery]
    simp only [hsame, if_true]
    exact ⟨_, rfl, rfl, rfl⟩
  unfold typeNameSite?
  rw [hquery]
  simp only [hname, Bool.false_eq_true, if_false]
  cases hisSelf : Name.isSelfKeyword name.text with
  | true =>
      rw [if_pos rfl, hself hisSelf]
      exact hkeyword
  | false =>
      rw [if_neg Bool.false_ne_true]
      cases hisParent : Name.isParentKeyword name.text with
      | true =>
          rw [if_pos rfl, hparent hisSelf hisParent]
          exact hkeyword
      | false =>
          rw [if_neg Bool.false_ne_true, hresolve]
          have hdenotes : (Resolved.qualified n).denotes subject .classLike = true := hsame
          rw [if_pos hdenotes]
          exact ⟨_, rfl, rfl, rfl⟩

/-- A file that gives the type `subject` the alias `name` and makes an object of it. -/
def aliasedFile (subject name : String) : List Stmt :=
  [.imports .classLike [⟨⟨subject, ⟨0, 0⟩⟩, some ⟨name, ⟨1, 1⟩⟩⟩],
    .expr (.new (.named ⟨name, ⟨2, 2⟩⟩) [] ⟨3, 3⟩)]

/-- What is in force after the import of that file. -/
def aliasedContext (subject name : String) : Context :=
  (∅ : Context).addImport .classLike name subject

theorem target?_aliasedContext (subject name : String) :
    (aliasedContext subject name).imports.target? .classLike name = some (Name.relative subject) :=
  OrderedMap.find?_insert_self _ _ _

theorem occurrences_aliasedFile (subject name : String) :
    occurrences (aliasedFile subject name) =
      [{ context := aliasedContext subject name, position := .instantiated,
         name := ⟨name, ⟨2, 2⟩⟩ }] := by
  simp [occurrences, placedNodes, aliasedFile, Node.visitAll_cons, Node.visitAll_nil,
    Walk.andThen_run, Node.visit_run, Node.children, Node.childrenOfStmt, Node.childrenOfExpr,
    Node.enter, Node.leave, PlacedNode.occurrences, PlacedNode.named, NamePosition.ofOperand,
    aliasedContext, ImportItem.localName]

theorem kind_of_importSite? {s : Search} {kind : NameKind} {name : Word} {site : Site}
    (h : s.importSite? kind name = some site) : site.kind = .importClause := by
  unfold importSite? at h
  obtain ⟨_, hsite⟩ := Option.ite_none_right_eq_some.1 h
  rw [← Option.some.inj hsite]

/-- With an alias spelled like a builtin type only the import itself is a site. -/
theorem kind_of_mem_sites_aliasedFile {s : Search} {subject name : String}
    (hquery : s.query = .type subject) (hname : Name.isBuiltinType name = true) {ctx : Context}
    {site : Site} (h : (ctx, site) ∈ s.sites (aliasedFile subject name)) :
    site.kind = .importClause := by
  obtain ⟨e, he, hsite, _⟩ := mem_sites_iff.1 h
  have hreferences : (eventsOf s.resolver s.settings.hopLimit (aliasedFile subject name)).map
      Event.reference = [.imported .classLike ⟨subject, ⟨0, 0⟩⟩,
        .operand (.named ⟨name, ⟨2, 2⟩⟩) .instantiation, .construction (.named ⟨name, ⟨2, 2⟩⟩)] :=
    rfl
  have hmem := List.mem_map_of_mem (f := Event.reference) he
  rw [hreferences] at hmem
  rcases List.mem_cons.1 hmem with himport | hmem
  · unfold site? at hsite
    rw [himport] at hsite
    exact kind_of_importSite? hsite
  rcases List.mem_cons.1 hmem with hoperand | hmem
  · unfold site? at hsite
    rw [hoperand] at hsite
    simp only [operandSite?, typeNameSite?, hquery, hname, if_true] at hsite
    exact absurd hsite (by simp)
  · unfold site? at hsite
    rw [List.mem_singleton.1 hmem] at hsite
    simp only [constructionSite?, hquery, Query.isConstructor] at hsite
    exact absurd hsite (by simp)

/-- In a search for a type, each name that stands for the type and is spelled `raw` is reported
wherever nothing but a class can be named, whatever the file, if and only if `raw` is not spelled
like a builtin type. -/
theorem class_names_reported_iff (c : Catalog) (settings : Settings) (subject raw : String) :
    let s := ofQuery c settings (.type subject)
    (∀ ss : List Stmt, ∀ o ∈ occurrences ss, o.position.isClassOnly = true → o.name.text = raw →
      o.StandsFor s.resolver subject →
      ∃ site, (o.context, site) ∈ s.sites ss ∧ site.kind = o.position.role ∧
        site.span = o.name.span) ↔
      Name.isBuiltinType raw = false := by
  intro s
  have hquery : s.query = .type subject := rfl
  constructor
  · intro hreported
    by_contra hraw
    rw [Bool.not_eq_false] at hraw
    have hstands : Resolver.resolve s.resolver (aliasedContext subject raw) .classLike raw =
        .qualified (Name.relative subject) :=
      s.resolver.resolve_alias_of_isBuiltinType _ hraw (target?_aliasedContext subject raw)
    have hsame : Name.same (Name.relative subject) subject = true := by
      rw [Name.same_iff, Name.key_relative]
    let o : Occurrence :=
      { context := aliasedContext subject raw, position := .instantiated, name := ⟨raw, ⟨2, 2⟩⟩ }
    have ho : o ∈ occurrences (aliasedFile subject raw) := by
      rw [occurrences_aliasedFile]
      exact List.mem_singleton_self _
    obtain ⟨site, hsite, hkind, _⟩ := hreported (aliasedFile subject raw) o ho rfl rfl
      ⟨Name.relative subject, hstands, hsame⟩
    have himport : site.kind = .importClause := kind_of_mem_sites_aliasedFile hquery hraw hsite
    have hnew : site.kind = .instantiation := hkind
    exact UsageKind.noConfusion (hnew.symm.trans himport)
  · rintro hraw ss o ho hposition rfl ⟨n, hresolve, hsame⟩
    -- The walk meets the name, and the node that it meets is a site.
    obtain ⟨e, he, huse⟩ : ∃ e ∈ eventsOf s.resolver s.settings.hopLimit ss,
        e.use? = some o.use := by
      rw [← List.mem_filterMap, use?_eventsOf]
      exact List.mem_map_of_mem ho
    obtain ⟨hcontext, hmatch⟩ :=
      s.site?_of_use? huse (NamePosition.kind_of_isClassOnly hposition)
    obtain ⟨site, hsite, hkind, hspan⟩ :=
      typeNameSite?_of_resolve hquery o.position.role hraw hresolve hsame
    exact ⟨site, mem_sites_iff.2 ⟨e, he, hmatch.trans hsite, hcontext⟩, hkind, hspan⟩

/-- A file that declares the class `Resource` and makes an object of it. -/
def resourceFile : SourceFile where
  path := "resource.php"
  text := "class Resource {} new Resource();"
  tree := some
    [.classLike (.mk .classDecl (some ⟨"Resource", ⟨6, 14⟩⟩) [] [] []),
      .expr (.new (.named ⟨"Resource", ⟨22, 30⟩⟩) [] ⟨18, 32⟩)]

/-- The name of the new object's class stands for the declared class and is not reported. -/
theorem resource_class_not_reported :
    let c := (Workspace.after {} [.setFile resourceFile, .snapshot]).catalog
    let s := ofQuery c {} (.type "Resource")
    c.hasType "Resource" = true ∧
      ((occurrences resourceFile.stmts).map fun o =>
        (o.position, o.name, s.resolver.resolve o.context .classLike o.name.text)) =
          [(.instantiated, ⟨"Resource", ⟨22, 30⟩⟩, .qualified "Resource")] ∧
      (s.sites resourceFile.stmts).length = 0 :=
  ⟨by decide +kernel, by decide +kernel, by decide +kernel⟩

end Search
end CrossReference
