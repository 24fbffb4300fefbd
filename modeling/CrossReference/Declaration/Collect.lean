import CrossReference.Scope.Resolution
import CrossReference.Source.Lines
import CrossReference.Walk

/-!
# Declarations of a file

A walk over the statements of a file lists the symbols that it declares and its supertype clauses.
Expressions are not entered, so what a closure or an anonymous class declares is not listed.
-/

namespace CrossReference

/-- One thing that a file declares. -/
inductive Declared where
  | symbol (s : Symbol)
  | clause (c : Clause)
deriving DecidableEq, Inhabited

namespace Declared

/-- The symbol, if it is one. -/
def symbol? : Declared → Option Symbol
  | symbol s => some s
  | clause _ => none

/-- The supertype clause, if it is one. -/
def clause? : Declared → Option Clause
  | symbol _ => none
  | clause c => some c

end Declared

/-- All that a file declares. -/
structure Declarations where
  symbols : List Symbol := []
  clauses : List Clause := []
deriving DecidableEq, Inhabited

/-- The declarations of a list, the symbols and the clauses apart. -/
def Declarations.ofList (found : List Declared) : Declarations where
  symbols := found.filterMap Declared.symbol?
  clauses := found.filterMap Declared.clause?

namespace Tree

/-- The types that the names of a hint may stand for. Keywords that name no class are left out. -/
def TypeHint.candidates (ctx : Context) (hint : TypeHint) : List Candidates :=
  hint.names.filterMap fun name =>
    if Name.isSelfKeyword name.text then
      ctx.currentType?.map ([·])
    else if Name.isParentKeyword name.text || Name.isBuiltinType name.text then
      none
    else
      some (ctx.candidates .classLike name.text)

/-- The method names among the members of a type. -/
def Member.methodName? : Member → Option String
  | method name _ _ _ _ _ => some name.text
  | _ => none

end Tree

namespace Declarations

open CrossReference.Tree

/-- Where symbols are collected: the file and its lines. -/
structure Site where
  file : FileId
  lines : Lines

namespace Site

/-- A symbol declared at `span`. -/
def symbol (site : Site) (kind : SymbolKind) (qualified : String) (span : Span) : Symbol :=
  { Symbol.ofName kind qualified site.file with position := site.lines.position span.start }

/-- The supertype clause that ties `child` to the written name `parent`. -/
def clause (site : Site) (ctx : Context) (child : String) (relation : Relation) (parent : Word) :
    Clause where
  child := child
  parent := ctx.candidates .classLike parent.text
  relation := relation
  line := (site.lines.position parent.span.start).line

/-- The types that an optional hint may stand for. -/
def types (ctx : Context) (hint : Option TypeHint) : List Candidates :=
  (hint.map (·.candidates ctx)).getD []

/-- The symbol of a method. -/
def method (site : Site) (ctx : Context) (owner : String) (name : Word) (visibility : Visibility)
    (isStatic : Bool) (returns : Option TypeHint) : Symbol :=
  { site.symbol .method (Name.member owner name.text) name.span with
    visibility := some visibility
    isStatic := isStatic
    types := types ctx returns }

/-- The property that a constructor's parameter declares. -/
def promoted? (site : Site) (ctx : Context) (owner : String) : Param → Option Symbol
  | .mk name hint doc _ promoted span =>
    promoted.map fun visibility =>
      { site.symbol .property (Name.member owner name) span with
        visibility := some visibility
        types := types ctx (hint.or doc) }

/-- The properties that the parameters of a method declare. -/
def promotedIn (site : Site) (ctx : Context) (owner method : String) (params : List Param) :
    List Symbol :=
  if Name.isConstructor method then params.filterMap (site.promoted? ctx owner) else []

/-- The symbol of a property. -/
def property (site : Site) (ctx : Context) (owner : String) (name : Word) (visibility : Visibility)
    (isStatic : Bool) (hint doc : Option TypeHint) : Symbol :=
  { site.symbol .property (Name.member owner name.text) name.span with
    visibility := some visibility
    isStatic := isStatic
    types := types ctx (hint.or doc) }

/-- The symbol of a class constant. -/
def constant (site : Site) (owner : String) (name : Word) (visibility : Visibility) : Symbol :=
  { site.symbol .constant (Name.member owner name.text) name.span with
    visibility := some visibility
    isStatic := true }

/-- The symbol of an enum case. -/
def enumCase (site : Site) (owner : String) (name : Word) : Symbol :=
  { site.symbol .constant (Name.member owner name.text) name.span with
    visibility := some .everyone
    isStatic := true
    types := [[owner]] }

/-- The symbol of a function. -/
def function (site : Site) (ctx : Context) (name : Word) (returns : Option TypeHint) : Symbol :=
  { site.symbol .function (ctx.qualify name.text) name.span with types := types ctx returns }

/-- The symbol of a named type, with the catch-all methods among its members. -/
def classLike (site : Site) (ctx : Context) (kind : ClassKind) (name : Word)
    (members : List Member) : Symbol :=
  { site.symbol (.type kind) (ctx.qualify name.text) name.span with
    handlers := .ofMethods (members.filterMap Member.methodName?) }

end Site

/-- A walk that lists declarations. -/
abbrev Collector := Walk Context Declared

/-- The imports of a statement come into force. -/
def importAll (kind : NameKind) (items : List ImportItem) : Collector :=
  .change fun ctx => items.foldl (fun ctx item => ctx.addImport kind item.localName item.name.text)
    ctx

mutual

/-- What a statement declares. A namespace with a body ends with it; one without a body lasts until
the next. -/
def collectStmt (site : Site) : Stmt → Collector
  | .namespaceLine name => .change (·.enterNamespace (name.map Word.text))
  | .namespaceBlock name body =>
    .inOrder [.change (·.enterNamespace (name.map Word.text)), collectStmts site body,
      .change (·.enterNamespace none)]
  | .imports kind items => importAll kind items
  | .classLike decl => collectClass site decl
  | .function name _ returns body =>
    .inOrder [.meet fun ctx => .symbol (site.function ctx name returns), collectStmts site body]
  | .constants items => collectConstants site items
  | .branch _ thenBody elseBody => .inOrder [collectStmts site thenBody, collectStmts site elseBody]
  | .loop _ body => collectStmts site body
  | .forEach _ _ _ body => collectStmts site body
  | .attempt body catches cleanup =>
    .inOrder [collectStmts site body, collectCatches site catches, collectStmts site cleanup]
  | .block body => collectStmts site body
  | .expr _ | .returned _ | .echo _ | .varDoc _ _ | .globals _ => .skip

/-- What a list of statements declares. -/
def collectStmts (site : Site) : List Stmt → Collector
  | [] => .skip
  | stmt :: stmts => (collectStmt site stmt).andThen (collectStmts site stmts)

/-- The constants of a constant statement. -/
def collectConstants (site : Site) : List ConstItem → Collector
  | [] => .skip
  | .mk name _ :: items =>
    .andThen (.meet fun ctx => .symbol (site.symbol .constant (ctx.qualify name.text) name.span))
      (collectConstants site items)

/-- What the bodies of catch clauses declare. -/
def collectCatches (site : Site) : List Catch → Collector
  | [] => .skip
  | .mk _ _ body :: catches => (collectStmts site body).andThen (collectCatches site catches)

/-- A type with its clauses and members; an anonymous one declares nothing. -/
def collectClass (site : Site) : ClassDecl → Collector
  | .mk _ none _ _ _ => .skip
  | .mk kind (some name) parents interfaces members =>
    .inOrder [
      .meet fun ctx => .symbol (site.classLike ctx kind name members),
      .meetAll fun ctx =>
        parents.map fun p => .clause (site.clause ctx (ctx.qualify name.text) .extending p),
      .meetAll fun ctx =>
        interfaces.map fun i => .clause (site.clause ctx (ctx.qualify name.text) .implementing i),
      .change fun ctx => ctx.pushType (ctx.qualify name.text),
      collectMembers site members,
      .change Context.popType]

/-- What a list of members declares. -/
def collectMembers (site : Site) : List Member → Collector
  | [] => .skip
  | member :: members => (collectMember site member).andThen (collectMembers site members)

/-- A member, and what the body of a method declares. -/
def collectMember (site : Site) : Member → Collector
  | .method name visibility isStatic params returns body =>
    .inOrder [
      .meetAll fun ctx =>
        (site.method ctx ctx.owner name visibility isStatic returns ::
          site.promotedIn ctx ctx.owner name.text params).map .symbol,
      collectStmts site body]
  | .property name visibility isStatic hint doc _ =>
    .meet fun ctx =>
      .symbol (site.property ctx ctx.owner name visibility isStatic hint doc)
  | .constant name visibility _ =>
    .meet fun ctx => .symbol (site.constant ctx.owner name visibility)
  | .enumCase name _ =>
    .meet fun ctx => .symbol (site.enumCase ctx.owner name)
  | .traitUse traits =>
    .meetAll fun ctx =>
      traits.map fun t => .clause (site.clause ctx ctx.owner .mixingIn t)

end

end Declarations

/-- The declarations of a file with the given statements and lines. -/
def Declarations.collect (file : FileId) (lines : Lines) (stmts : List Tree.Stmt) : Declarations :=
  .ofList ((collectStmts { file := file, lines := lines } stmts).run ∅).1

end CrossReference
