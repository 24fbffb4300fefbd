import CrossReference.Query.Basic
import CrossReference.Settings
import CrossReference.Source.Lines
import CrossReference.Usage.Event

/-!
# Sites of a query

Which of the nodes that a walk meets refer to what a query asks for.

A member is asked for through a type. A receiver matches when looking the member up on its type
finds the same declaration as looking it up on the type of the query: a subclass that inherits the
member matches, one that overrides it does not. When neither lookup finds a declaration, a receiver
of the type of the query or below it still matches, but the member is undeclared.
-/

namespace CrossReference

open CrossReference.Tree

/-- A query with what it is searched against. -/
structure Search where
  query : Query
  catalog : Catalog
  settings : Settings
  /-- The declaration that the query finds on its own type, if it asks for a member. -/
  declaration : Option SymbolKey

namespace Search

/-- The declaration that a member query finds on its own type. -/
def declarationOf (c : Catalog) : Query → Option SymbolKey
  | .member owner name kind => (c.findMember? owner name kind).map Symbol.key
  | _ => none

/-- The search for a query. -/
def ofQuery (catalog : Catalog) (settings : Settings) (query : Query) : Search where
  query := query
  catalog := catalog
  settings := settings
  declaration := declarationOf catalog query

/-- What names are resolved against. -/
def resolver (s : Search) : Resolver where
  catalog := s.catalog
  builtins := s.settings.builtins

/-- A name of an import statement. -/
def importSite? (s : Search) (kind : NameKind) (name : Word) : Option Site :=
  let target := Name.relative name.text
  let isMatch :=
    match s.query, kind with
    | .type subject, .classLike => NameKind.classLike.sameName target subject
    | .function subject, .function => NameKind.function.sameName target subject
    | .constant subject, .constant => NameKind.constant.sameName target subject
    | _, _ => false
  if isMatch then some { kind := .importClause, span := name.span } else none

/-- A keyword that stands for the type `target` of its surroundings. -/
def keywordSite? (s : Search) (target : Option String) (role : UsageKind) (span : Span) :
    Option Site :=
  match s.query, target with
  | .type subject, some type =>
    if Name.same type subject then
      some { kind := role, span := span, evidence := { receiver := some .selfRef } }
    else
      none
  | _, _ => none

/-- A class name as written. -/
def typeNameSite? (s : Search) (ctx : Context) (name : Word) (role : UsageKind) : Option Site :=
  match s.query with
  | .type subject =>
    if Name.isBuiltinType name.text then
      none
    else if Name.isSelfKeyword name.text then
      s.keywordSite? (s.resolver.selfType? ctx) role name.span
    else if Name.isParentKeyword name.text then
      s.keywordSite? (s.resolver.parentType? ctx) role name.span
    else
      let resolved := s.resolver.resolve ctx .classLike name.text
      if resolved.denotes subject .classLike then
        some { kind := role, span := name.span, evidence := { resolution := resolved.resolution } }
      else
        none
  | _ => none

/-- A value in the place of a class. -/
def dynamicClassSite? (s : Search) (p : Place) (e : Expr) (role : UsageKind) : Option Site :=
  let v := s.resolver.value p e
  match s.query, Resolver.denotedType? v with
  | .type subject, some type =>
    if v.origin.isTraceable && Name.same type subject then
      some { kind := role, span := e.span, evidence := { mediator := some v.origin } }
    else
      none
  | _, _ => none

/-- What stands in the place of a class. -/
def operandSite? (s : Search) (p : Place) (role : UsageKind) : ClassRef → Option Site
  | .named name => s.typeNameSite? p.context name role
  | .selfType span => s.keywordSite? (s.resolver.selfType? p.context) role span
  | .staticType span => s.keywordSite? (s.resolver.selfType? p.context) role span
  | .parentType span => s.keywordSite? (s.resolver.parentType? p.context) role span
  | .dynamic e => s.dynamicClassSite? p e role

/-- How the member of the query is found on a receiver of the given type, if it is the one that is
asked for. A type without a declared constructor has one nevertheless. -/
def memberOn? (s : Search) (type : String) (access : MemberAccess) : Option MemberEvidence :=
  match s.query with
  | .member owner name kind =>
    match s.declaration, s.catalog.findMember? type name kind with
    | some expected, some found =>
      if expected = found.key then
        some { name := name, access := access, declared := true }
      else
        none
    | none, none =>
      if s.catalog.isSameOrAncestor owner type then
        if s.query.isConstructor then
          some { name := name, access := access, declared := true }
        else
          some { name := name, access := access, declared := false,
                 catchAll := s.catalog.catchAll? type access }
      else
        none
    | _, _ => none
  | _ => none

/-- The member of the query on a receiver of which nothing is known. -/
def memberByName (s : Search) (name : String) (access : MemberAccess) : MemberEvidence where
  name := name
  access := access
  declared := s.declaration.isSome

/-- The span of what stands in the place of a class. -/
def operandSpan : ClassRef → Span
  | .named name => name.span
  | .selfType span => span
  | .staticType span => span
  | .parentType span => span
  | .dynamic e => e.span

/-- A new object whose constructor is asked for. -/
def constructionSite? (s : Search) (p : Place) (target : ClassRef) : Option Site :=
  if s.query.isConstructor then
    let (v, resolution) := s.resolver.classValue p target
    match v.type with
    | none => none
    | some type =>
      (s.memberOn? type .instanceMethod).map fun found =>
        let (receiver, mediator) :=
          match target with
          | .dynamic _ => (none, some v.origin)
          | _ => (some v.origin, none)
        { kind := .instantiation
          span := operandSpan target
          evidence :=
            { resolution := resolution, receiver := receiver, receiverType := some type,
              mediator := mediator, member := some found } }
  else
    none

/-- The kind of site of an access to a declared member. -/
def accessKind : MemberAccess → UsageKind
  | .constant => .constantAccess
  | .staticMethod | .staticProperty => .staticMemberAccess
  | .instanceMethod | .instanceProperty => .instanceMemberAccess

/-- Where a member's name stands and what tells it, if it can be the name that is asked for. -/
def nameMatch? (s : Search) (p : Place) (wanted : String) (kind : SymbolKind) :
    MemberName → Option (Span × Option Origin)
  | .ident name => if kind.sameMember name.text wanted then some (name.span, none) else none
  | .dynamic e =>
    let v := s.resolver.value p e
    match v.text with
    | some text =>
      if v.origin.isTraceable then
        if kind.sameMember text wanted then some (e.span, some v.origin) else none
      else
        some (e.span, some .untraceable)
    | none => some (e.span, some .untraceable)

/-- What is known of a receiver, and how its name was resolved. -/
def receiverValue (s : Search) (p : Place) : Receiver → Value × Resolution
  | .object e => (s.resolver.value p e, .resolved)
  | .type target => s.resolver.classValue p target

/-- An access to a member. -/
def memberSite? (s : Search) (p : Place) (receiver : Receiver) (name : MemberName)
    (access : MemberAccess) (nullsafe : Bool) : Option Site :=
  match s.query with
  | .member _ wanted kind =>
    if access.symbolKind = kind then
      match s.nameMatch? p wanted kind name with
      | none => none
      | some (span, mediator) =>
        let (v, resolution) := s.receiverValue p receiver
        let nameUnknown := mediator = some .untraceable
        match v.type with
        | none =>
          if nameUnknown then
            none
          else
            some
              { kind := .dynamicCall
                span := span
                evidence :=
                  { resolution := resolution, receiver := some .untraceable, mediator := mediator,
                    member := some (s.memberByName wanted access), nullsafe := nullsafe } }
        | some type =>
          (s.memberOn? type access).map fun found =>
            { kind := if nameUnknown then .dynamicCall else accessKind access
              span := span
              evidence :=
                { resolution := resolution, receiver := some v.origin, receiverType := some type,
                  mediator := mediator, member := some found, nullsafe := nullsafe } }
    else
      none
  | _ => none

/-- A call of a function by its name. -/
def functionSite? (s : Search) (ctx : Context) (name : Word) : Option Site :=
  match s.query with
  | .function subject =>
    let resolved := s.resolver.resolve ctx .function name.text
    if resolved.denotes subject .function then
      some
        { kind := .functionCall, span := name.span,
          evidence := { resolution := resolved.resolution } }
    else
      none
  | _ => none

/-- A constant. -/
def constantSite? (s : Search) (ctx : Context) (name : Word) : Option Site :=
  match s.query with
  | .constant subject =>
    let resolved := s.resolver.resolve ctx .constant name.text
    if resolved.denotes subject .constant then
      some
        { kind := .constantAccess, span := name.span,
          evidence := { resolution := resolved.resolution } }
    else
      none
  | _ => none

/-- A member that the arguments of a function name. Of the type, if it is known, the member must be
the one that is asked for. -/
def reflectedMember? (s : Search) (type : Option String) (name : String) (access : MemberAccess)
    (span : Span) : Option Site :=
  match s.query with
  | .member _ wanted kind =>
    if access.symbolKind = kind && kind.sameMember name wanted then
      let found :=
        match type with
        | some type => s.memberOn? type access
        | none => some (s.memberByName wanted access)
      found.map fun found =>
        { kind := .dynamicCall
          span := span
          evidence := { receiverType := type, member := some found, reflective := true } }
    else
      none
  | _ => none

/-- A static method that a called string names. -/
def mediatedMember? (s : Search) (type name : String) (origin : Origin) (span : Span) :
    Option Site :=
  match s.query with
  | .member _ wanted kind =>
    if kind = .method && kind.sameMember name wanted then
      (s.memberOn? type .staticMethod).map fun found =>
        { kind := .dynamicCall
          span := span
          evidence :=
            { receiver := some origin, receiverType := some type, mediator := some origin,
              member := some found } }
    else
      none
  | _ => none

/-- The text of a value, if it can be followed. -/
def knownText? (v : Value) : Option String :=
  if v.origin.isTraceable then v.text else none

/-- A string that is called, or that a function is given to call: it names a function, or a class
and a method. Names in strings are always absolute. -/
def callableSite? (s : Search) (v : Value) (span : Span) (reflective : Bool) : Option Site :=
  match knownText? v with
  | none => none
  | some text =>
    match Text.splitFirst? Name.memberMark text with
    | some (type, name) =>
      if reflective then
        s.reflectedMember? (some (Name.relative type)) name .staticMethod span
      else
        s.mediatedMember? (Name.relative type) name v.origin span
    | none =>
      match s.query with
      | .function subject =>
        if NameKind.function.sameName (Name.relative text) subject then
          some
            { kind := .dynamicCall
              span := span
              evidence :=
                { mediator := if reflective then none else some v.origin,
                  reflective := reflective } }
        else
          none
      | _ => none

/-- A constant, or a class and its constant, that a string names. -/
def reflectedConstant? (s : Search) (text : String) (span : Span) : Option Site :=
  match Text.splitFirst? Name.memberMark text with
  | some (type, name) => s.reflectedMember? (some (Name.relative type)) name .constant span
  | none =>
    match s.query with
    | .constant subject =>
      if NameKind.constant.sameName (Name.relative text) subject then
        some { kind := .dynamicCall, span := span, evidence := { reflective := true } }
      else
        none
    | _ => none

/-- The arguments that name an object and a member, or only what is called: two arguments for the
functions that take both, else an array of two, else the first argument. -/
def indirectTarget? (function : String) : List Expr → Option (Option Expr × Expr)
  | [] => none
  | first :: rest =>
    match function == "method_exists" || function == "property_exists", rest with
    | true, second :: _ => some (some first, second)
    | _, _ =>
      match first with
      | .array [object, member] _ => some (some object, member)
      | _ => some (none, first)

/-- A call of a function whose arguments name functions and members. -/
def indirectSite? (s : Search) (p : Place) (name : Word) (args : List Expr) : Option Site :=
  let function := Name.key name.text
  match indirectTarget? function args with
  | none => none
  | some (object, target) =>
    let v := s.resolver.value p target
    match knownText? v with
    | none => none
    | some text =>
      match object with
      | some object =>
        let receiver := s.resolver.value p object
        s.reflectedMember? (receiver.type.or (receiver.text.map Name.relative)) text
          (if function == "property_exists" then .instanceProperty else .instanceMethod) target.span
      | none =>
        if function == "constant" then
          s.reflectedConstant? text target.span
        else
          s.callableSite? v target.span true

/-- The site that an event is, if it refers to what is searched for. -/
def site? (s : Search) (e : Event) : Option Site :=
  match e.reference with
  | .imported kind name => s.importSite? kind name
  | .typeName name role => s.typeNameSite? e.place.context name role
  | .operand target role => s.operandSite? e.place role target
  | .construction target => s.constructionSite? e.place target
  | .call name args =>
    if s.settings.isIndirectCall name.text then
      s.indirectSite? e.place name args
    else
      s.functionSite? e.place.context name
  | .callValue callee =>
    s.callableSite? (s.resolver.value e.place callee) callee.span false
  | .member receiver name access nullsafe =>
    s.memberSite? e.place receiver name access nullsafe
  | .constant name => s.constantSite? e.place.context name
  | .typeBody => none

/-- The sites of a file with what names mean there, in the order of the walk. -/
def sites (s : Search) (stmts : List Stmt) : List (Context × Site) :=
  (eventsOf s.resolver s.settings.hopLimit stmts).filterMap fun e =>
    (s.site? e).map fun site => (e.place.context, site)

end Search

/-- A site with its place in the file's text. -/
structure Usage where
  path : String
  site : Site
  /-- Counted from zero. -/
  position : Position
  /-- The whole line. -/
  snippet : String
deriving DecidableEq, Inhabited

/-- A site of the file with the given path, text and lines. -/
def Usage.locate (path text : String) (lines : Lines) (site : Site) : Usage where
  path := path
  site := site
  position := lines.position site.span.start
  snippet := (lines.text? text (lines.position site.span.start).line).getD ""

end CrossReference
