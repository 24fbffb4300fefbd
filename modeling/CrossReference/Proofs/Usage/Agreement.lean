import CrossReference.Proofs.Catalog.Agreement
import CrossReference.Usage.Search

/-!
# Searches against catalogs that agree

A search reads the catalog through name resolution, the values of expressions and the lookup of
members. All of these give the same answers against two catalogs that agree, so the walk over a file
meets the same events (`Resolver.Agrees.eventsOf`) and the search reports the same sites
(`Search.sites_ofQuery_eq`).
-/

namespace CrossReference

open CrossReference.Tree

/-- The same builtins, and catalogs that agree. -/
structure Resolver.Agrees (r r' : Resolver) : Prop where
  catalog : r.catalog.Agrees r'.catalog
  builtins : r.builtins = r'.builtins

namespace Resolver.Agrees

variable {r r' : Resolver}

/-! ## Names -/

theorem isDeclared (h : r.Agrees r') (kind : NameKind) :
    r.isDeclared kind = r'.isDeclared kind := by
  funext name
  cases kind with
  | classLike => exact h.catalog.hasType name
  | function => exact (h.catalog.lookup? .function name).isSome_eq
  | constant => exact (h.catalog.lookup? .constant name).isSome_eq

theorem parentType? (h : r.Agrees r') (ctx : Context) : r.parentType? ctx = r'.parentType? ctx := by
  unfold Resolver.parentType?
  rw [show r.catalog.parentOf? = r'.catalog.parentOf? from funext h.catalog.parentOf?]

theorem searchFor (h : r.Agrees r') (kind : NameKind) (raw : String) (candidates : Candidates) :
    r.searchFor kind raw candidates = r'.searchFor kind raw candidates := by
  have hbuiltin : r.isBuiltin kind raw = r'.isBuiltin kind raw := by
    unfold Resolver.isBuiltin
    rw [h.builtins]
  unfold Resolver.searchFor
  rw [h.isDeclared, hbuiltin]

theorem resolve (h : r.Agrees r') (ctx : Context) (kind : NameKind) (raw : String) :
    r.resolve ctx kind raw = r'.resolve ctx kind raw := by
  have hkeyword : r.resolveKeyword? ctx raw = r'.resolveKeyword? ctx raw := by
    unfold Resolver.resolveKeyword?
    rw [h.parentType?]
    rfl
  have hreading : r.resolveReading ctx kind raw = r'.resolveReading ctx kind raw := by
    unfold Resolver.resolveReading
    simp only [h.searchFor]
  unfold Resolver.resolve
  rw [hkeyword, hreading]

/-! ## Values -/

theorem namedType? (h : r.Agrees r') (ctx : Context) : r.namedType? ctx = r'.namedType? ctx := by
  funext name
  unfold Resolver.namedType?
  rw [h.resolve]

theorem hintType? (h : r.Agrees r') (ctx : Context) : r.hintType? ctx = r'.hintType? ctx := by
  funext hint
  unfold Resolver.hintType?
  rw [h.namedType?]

/-- The declared type of a symbol does not depend on its file. -/
theorem bind_declaredType? (h : r.Agrees r') {o o' : Option Symbol} (ho : Alike o o') :
    o.bind r.declaredType? = o'.bind r'.declaredType? := by
  have hresolve : r.catalog.resolve? = r'.catalog.resolve? := funext h.catalog.resolve?
  rcases ho.cases with ⟨rfl, rfl⟩ | ⟨s, s', rfl, rfl, hss⟩
  · rfl
  · have htypes : s.types = s'.types := (congrArg Symbol.types hss :)
    simp only [Option.bind_some, Resolver.declaredType?, htypes, hresolve]

theorem memberValue (h : r.Agrees r') (receiver : Value) (name : String) (kind : SymbolKind) :
    r.memberValue receiver name kind = r'.memberValue receiver name kind := by
  unfold Resolver.memberValue
  cases receiver.type with
  | none => rfl
  | some type =>
      simp only [h.bind_declaredType? (h.catalog.findMember? type name kind)]

theorem callValue (h : r.Agrees r') (ctx : Context) (name : String) :
    r.callValue ctx name = r'.callValue ctx name := by
  unfold Resolver.callValue
  rw [h.resolve, h.bind_declaredType? (h.catalog.lookup? .function _)]

mutual

theorem value (h : r.Agrees r') (p : Place) : (e : Expr) → r.value p e = r'.value p e
  | .var _ _ => rfl
  | .text _ _ => rfl
  | .literal _ => rfl
  | .constant _ => rfl
  | .classConstant target _ _ => by
      simp only [Resolver.value, h.classValue p target]
  | .new target _ _ => by
      simp only [Resolver.value, h.classValue p target]
  | .newAnonymous _ _ _ => rfl
  | .methodCall receiver (.ident _) _ _ _ => by
      simp only [Resolver.value, h.value p receiver, h.memberValue]
  | .methodCall _ (.dynamic _) _ _ _ => rfl
  | .property receiver (.ident _) _ _ => by
      simp only [Resolver.value, h.value p receiver, h.memberValue]
  | .property _ (.dynamic _) _ _ => rfl
  | .staticCall target (.ident _) _ _ => by
      simp only [Resolver.value, h.classValue p target, h.memberValue]
  | .staticCall _ (.dynamic _) _ _ => rfl
  | .staticProperty target (.ident _) _ => by
      simp only [Resolver.value, h.classValue p target, h.memberValue]
  | .staticProperty _ (.dynamic _) _ => rfl
  | .call (.named _) _ _ => by
      simp only [Resolver.value, h.callValue]
  | .call (.value _) _ _ => rfl
  | .instanceOf _ _ _ => rfl
  | .assign _ assigned _ => by
      simp only [Resolver.value, h.value p assigned]
  | .array _ _ => rfl
  | .closure _ _ _ _ _ => rfl
  | .arrow _ _ _ _ => rfl
  | .compound _ _ => rfl

theorem classValue (h : r.Agrees r') (p : Place) : (target : ClassRef) →
    r.classValue p target = r'.classValue p target
  | .named _ => by
      simp only [Resolver.classValue, h.resolve]
  | .selfType _ => rfl
  | .staticType _ => rfl
  | .parentType _ => by
      simp only [Resolver.classValue, h.parentType?]
  | .dynamic inner => by
      simp only [Resolver.classValue, h.value p inner]

end

/-! ## The walk over a file -/

theorem functionBody (h : r.Agrees r') (params : List Param) (captured : List String)
    (body : Tracker) :
    Tracker.functionBody r params captured body = Tracker.functionBody r' params captured body := by
  have hparam : Tracker.bindParam r = Tracker.bindParam r' := by
    funext ctx l p
    cases p with
    | mk name hint doc default promoted span =>
        simp only [Tracker.bindParam, h.hintType?]
  unfold Tracker.functionBody
  rw [hparam]

theorem assign (h : r.Agrees r') (name : String) (assigned : Expr) :
    Tracker.assign r name assigned = Tracker.assign r' name assigned := by
  unfold Tracker.assign
  simp only [h.value]

theorem bindCaught (h : r.Agrees r') (types : List Word) (var : Option String) :
    Tracker.bindCaught r types var = Tracker.bindCaught r' types var := by
  cases var with
  | none => rfl
  | some var => simp only [Tracker.bindCaught, h.namedType?]

theorem document (h : r.Agrees r') (var : String) (hint : TypeHint) :
    Tracker.document r var hint = Tracker.document r' var hint := by
  unfold Tracker.document
  simp only [h.hintType?]

mutual

theorem expr (h : r.Agrees r') (mode : Mode) : (e : Expr) →
    Tracker.expr r mode e = Tracker.expr r' mode e
  | .var _ _ => rfl
  | .text _ _ => rfl
  | .literal _ => rfl
  | .constant _ => rfl
  | .new target args _ => by
      simp only [Tracker.expr, h.operand target, h.exprs .read args]
  | .newAnonymous decl args _ => by
      simp only [Tracker.expr, h.exprs .read args, h.classDecl decl]
  | .call (.named _) args _ => by
      simp only [Tracker.expr, h.exprs .read args]
  | .call (.value callee) args _ => by
      simp only [Tracker.expr, h.expr .read callee, h.exprs .read args]
  | .methodCall receiver method args _ _ => by
      simp only [Tracker.expr, h.expr .read receiver, h.memberName method, h.exprs .read args]
  | .property receiver name _ _ => by
      simp only [Tracker.expr, h.expr .read receiver, h.memberName name]
  | .staticCall target method args _ => by
      simp only [Tracker.expr, h.operand target, h.memberName method, h.exprs .read args]
  | .staticProperty target name _ => by
      simp only [Tracker.expr, h.operand target, h.memberName name]
  | .classConstant target _ _ => by
      simp only [Tracker.expr, h.operand target]
  | .instanceOf subject target _ => by
      simp only [Tracker.expr, h.expr .read subject, h.operand target]
  | .assign target assigned _ => by
      simp only [Tracker.expr, h.expr .read assigned, h.assign, h.expr .write target]
  | .array items _ => by
      simp only [Tracker.expr, h.exprs mode items]
  | .closure ps _ _ body _ => by
      simp only [Tracker.expr, h.params ps, h.functionBody, h.stmts body]
  | .arrow ps _ body _ => by
      simp only [Tracker.expr, h.params ps, h.functionBody, h.expr .read body]
  | .compound children _ => by
      simp only [Tracker.expr, h.exprs .read children]

theorem exprs (h : r.Agrees r') (mode : Mode) : (es : List Expr) →
    Tracker.exprs r mode es = Tracker.exprs r' mode es
  | [] => rfl
  | e :: es => by
      simp only [Tracker.exprs, h.expr mode e, h.exprs mode es]

theorem expr? (h : r.Agrees r') (mode : Mode) : (e : Option Expr) →
    Tracker.expr? r mode e = Tracker.expr? r' mode e
  | none => rfl
  | some e => by
      simp only [Tracker.expr?, h.expr mode e]

theorem operand (h : r.Agrees r') : (target : ClassRef) →
    Tracker.operand r target = Tracker.operand r' target
  | .dynamic e => by
      simp only [Tracker.operand, h.expr .read e]
  | .named _ => rfl
  | .selfType _ => rfl
  | .staticType _ => rfl
  | .parentType _ => rfl

theorem memberName (h : r.Agrees r') : (name : MemberName) →
    Tracker.memberName r name = Tracker.memberName r' name
  | .dynamic e => by
      simp only [Tracker.memberName, h.expr .read e]
  | .ident _ => rfl

theorem params (h : r.Agrees r') : (ps : List Param) → Tracker.params r ps = Tracker.params r' ps
  | [] => rfl
  | .mk _ _ _ default _ _ :: ps => by
      simp only [Tracker.params, h.expr? .read default, h.params ps]

theorem classDecl (h : r.Agrees r') : (decl : ClassDecl) →
    Tracker.classDecl r decl = Tracker.classDecl r' decl
  | .mk _ _ _ _ ms => by
      simp only [Tracker.classDecl, h.members ms]

theorem members (h : r.Agrees r') : (ms : List Member) →
    Tracker.members r ms = Tracker.members r' ms
  | [] => rfl
  | m :: ms => by
      simp only [Tracker.members, h.member m, h.members ms]

theorem member (h : r.Agrees r') : (m : Member) → Tracker.member r m = Tracker.member r' m
  | .method _ _ _ ps _ body => by
      simp only [Tracker.member, h.params ps, h.functionBody, h.stmts body]
  | .property _ _ _ _ _ default => by
      simp only [Tracker.member, h.expr? .read default]
  | .constant _ _ e => by
      simp only [Tracker.member, h.expr .read e]
  | .enumCase _ e => by
      simp only [Tracker.member, h.expr? .read e]
  | .traitUse _ => rfl

theorem stmt (h : r.Agrees r') : (s : Stmt) → Tracker.stmt r s = Tracker.stmt r' s
  | .namespaceLine _ => rfl
  | .namespaceBlock _ body => by
      simp only [Tracker.stmt, h.stmts body]
  | .imports _ _ => rfl
  | .classLike decl => by
      simp only [Tracker.stmt, h.classDecl decl]
  | .function _ ps _ body => by
      simp only [Tracker.stmt, h.params ps, h.functionBody, h.stmts body]
  | .constants items => by
      simp only [Tracker.stmt, h.constItems items]
  | .expr e => by
      simp only [Tracker.stmt, h.expr .read e]
  | .returned e => by
      simp only [Tracker.stmt, h.expr? .read e]
  | .echo es => by
      simp only [Tracker.stmt, h.exprs .read es]
  | .branch cond thenBody elseBody => by
      simp only [Tracker.stmt, h.expr .read cond, h.stmts thenBody, h.stmts elseBody]
  | .loop header body => by
      simp only [Tracker.stmt, h.exprs .read header, h.stmts body]
  | .forEach subject key element body => by
      simp only [Tracker.stmt, h.expr .read subject, h.expr? .write key, h.expr .write element,
        h.stmts body]
  | .attempt body catches cleanup => by
      simp only [Tracker.stmt, h.stmts body, h.catchClauses catches, h.stmts cleanup]
  | .block body => by
      simp only [Tracker.stmt, h.stmts body]
  | .varDoc var hint => h.document var hint
  | .globals _ => rfl

theorem stmts (h : r.Agrees r') : (ss : List Stmt) → Tracker.stmts r ss = Tracker.stmts r' ss
  | [] => rfl
  | s :: ss => by
      simp only [Tracker.stmts, h.stmt s, h.stmts ss]

theorem constItems (h : r.Agrees r') : (items : List ConstItem) →
    Tracker.constItems r items = Tracker.constItems r' items
  | [] => rfl
  | .mk _ e :: items => by
      simp only [Tracker.constItems, h.expr .read e, h.constItems items]

theorem catchClauses (h : r.Agrees r') : (catches : List Catch) →
    Tracker.catchClauses r catches = Tracker.catchClauses r' catches
  | [] => rfl
  | .mk types var body :: catches => by
      simp only [Tracker.catchClauses, h.bindCaught types var, h.stmts body,
        h.catchClauses catches]

end

/-- The walk over a file meets the same events. -/
theorem eventsOf (h : r.Agrees r') (hopLimit : Nat) (ss : List Stmt) :
    CrossReference.eventsOf r hopLimit ss = CrossReference.eventsOf r' hopLimit ss := by
  unfold CrossReference.eventsOf
  rw [h.stmts ss]

end Resolver.Agrees

/-! ## Sites -/

namespace Search

/-- The same search against another catalog. -/
def against (s : Search) (c : Catalog) : Search :=
  { s with catalog := c }

section Against

variable {s : Search} {c : Catalog}

theorem resolver_against (h : s.catalog.Agrees c) : s.resolver.Agrees (s.against c).resolver :=
  ⟨h, rfl⟩

theorem typeNameSite?_against (h : s.catalog.Agrees c) (ctx : Context) (name : Word)
    (role : UsageKind) :
    s.typeNameSite? ctx name role = (s.against c).typeNameSite? ctx name role := by
  have hr := resolver_against h
  unfold typeNameSite?
  rw [hr.parentType?, hr.resolve]
  rfl

theorem operandSite?_against (h : s.catalog.Agrees c) (p : Place) (role : UsageKind)
    (target : ClassRef) :
    s.operandSite? p role target = (s.against c).operandSite? p role target := by
  have hr := resolver_against h
  cases target with
  | named name => exact typeNameSite?_against h p.context name role
  | selfType span => rfl
  | staticType span => rfl
  | parentType span =>
      simp only [operandSite?, hr.parentType?]
      rfl
  | dynamic e =>
      simp only [operandSite?, dynamicClassSite?, hr.value]
      rfl

theorem memberOn?_against (h : s.catalog.Agrees c) (type : String) (access : MemberAccess) :
    s.memberOn? type access = (s.against c).memberOn? type access := by
  unfold memberOn?
  rw [show (s.against c).query = s.query from rfl]
  cases s.query with
  | member owner name kind =>
      have hfound := h.findMember? type name kind
      simp only [show (s.against c).declaration = s.declaration from rfl,
        show (s.against c).catalog = c from rfl, h.isSameOrAncestor, h.catchAll?]
      rcases hfound.cases with ⟨hc, hc'⟩ | ⟨found, found', hc, hc', hsame⟩
      · rw [hc, hc']
      · have hkey : found.key = found'.key := (congrArg Symbol.key hsame :)
        rw [hc, hc']
        cases s.declaration with
        | none => rfl
        | some expected => simp only [hkey]
  | type name => rfl
  | function name => rfl
  | constant name => rfl

theorem constructionSite?_against (h : s.catalog.Agrees c) (p : Place) (target : ClassRef) :
    s.constructionSite? p target = (s.against c).constructionSite? p target := by
  have hr := resolver_against h
  unfold constructionSite?
  simp only [hr.classValue, memberOn?_against h]
  rfl

theorem memberSite?_against (h : s.catalog.Agrees c) (p : Place) (receiver : Receiver)
    (name : MemberName) (access : MemberAccess) (nullsafe : Bool) :
    s.memberSite? p receiver name access nullsafe =
      (s.against c).memberSite? p receiver name access nullsafe := by
  have hr := resolver_against h
  have hname : ∀ wanted kind,
      s.nameMatch? p wanted kind name = (s.against c).nameMatch? p wanted kind name := by
    intro wanted kind
    cases name with
    | ident name => rfl
    | dynamic e => simp only [nameMatch?, hr.value]
  have hreceiver : s.receiverValue p receiver = (s.against c).receiverValue p receiver := by
    cases receiver with
    | object e => simp only [receiverValue, hr.value]
    | type target => simp only [receiverValue, hr.classValue]
  unfold memberSite?
  simp only [hname, hreceiver, memberOn?_against h]
  rfl

theorem reflectedMember?_against (h : s.catalog.Agrees c) (type : Option String) (name : String)
    (access : MemberAccess) (span : Span) :
    s.reflectedMember? type name access span =
      (s.against c).reflectedMember? type name access span := by
  unfold reflectedMember?
  simp only [memberOn?_against h]
  rfl

theorem callableSite?_against (h : s.catalog.Agrees c) (v : Value) (span : Span)
    (reflective : Bool) :
    s.callableSite? v span reflective = (s.against c).callableSite? v span reflective := by
  have hmediated : ∀ type name origin, s.mediatedMember? type name origin span =
      (s.against c).mediatedMember? type name origin span := by
    intro type name origin
    unfold mediatedMember?
    simp only [memberOn?_against h]
    rfl
  unfold callableSite?
  simp only [reflectedMember?_against h, hmediated]
  rfl

theorem indirectSite?_against (h : s.catalog.Agrees c) (p : Place) (name : Word)
    (args : List Expr) : s.indirectSite? p name args = (s.against c).indirectSite? p name args := by
  have hr := resolver_against h
  have hconstant : ∀ text span, s.reflectedConstant? text span =
      (s.against c).reflectedConstant? text span := by
    intro text span
    unfold reflectedConstant?
    simp only [reflectedMember?_against h]
    rfl
  unfold indirectSite?
  simp only [hr.value, reflectedMember?_against h, hconstant, callableSite?_against h]

/-- An event is the same site. -/
theorem site?_against (h : s.catalog.Agrees c) (e : Event) :
    s.site? e = (s.against c).site? e := by
  have hr := resolver_against h
  unfold site?
  cases e.reference with
  | imported kind name => rfl
  | typeName name role => exact typeNameSite?_against h e.place.context name role
  | operand target role => exact operandSite?_against h e.place role target
  | construction target => exact constructionSite?_against h e.place target
  | call name args =>
      simp only [indirectSite?_against h, functionSite?, hr.resolve]
      rfl
  | callValue callee => simp only [hr.value, callableSite?_against h]
  | member receiver name access nullsafe =>
      exact memberSite?_against h e.place receiver name access nullsafe
  | constant name =>
      simp only [constantSite?, hr.resolve]
      rfl
  | typeBody => rfl

theorem sites_against (h : s.catalog.Agrees c) (stmts : List Stmt) :
    s.sites stmts = (s.against c).sites stmts := by
  unfold sites
  simp only [(resolver_against h).eventsOf, site?_against h]
  rfl

end Against

/-- A query has the same sites in a file against catalogs that agree. -/
theorem sites_ofQuery_eq {c c' : Catalog} (h : c.Agrees c') (settings : Settings) (query : Query)
    (stmts : List Stmt) :
    (ofQuery c settings query).sites stmts = (ofQuery c' settings query).sites stmts := by
  have hdeclaration : declarationOf c query = declarationOf c' query := by
    cases query with
    | member owner name kind =>
        exact (h.findMember? owner name kind).map_eq fun _ => rfl
    | type name => rfl
    | function name => rfl
    | constant name => rfl
  have hsearch : (ofQuery c settings query).against c' = ofQuery c' settings query := by
    simp only [against, ofQuery, hdeclaration]
  rw [← hsearch]
  exact sites_against h stmts

end Search
end CrossReference
