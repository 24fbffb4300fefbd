import CrossReference.Usage.Evaluation
import CrossReference.Walk

/-!
# The walk over a file

The walk goes through the tree of a file in the order of the text and lists each node that can refer
to a symbol, together with what is in force there. It follows namespaces, imports and enclosing
types, and it follows the local variables of each function body. What is searched for has no part in
it.
-/

namespace CrossReference

open CrossReference.Tree

/-- What a member is reached through. -/
inductive Receiver where
  | object (value : Expr)
  | type (operand : ClassRef)

/-- A node that can refer to a symbol. -/
inductive Reference where
  /-- A name of an import statement. -/
  | imported (kind : NameKind) (name : Word)
  /-- A class name in a type or a clause. -/
  | typeName (name : Word) (role : UsageKind)
  /-- What stands in the place of a class. -/
  | operand (target : ClassRef) (role : UsageKind)
  /-- The constructor that a new object runs. -/
  | construction (target : ClassRef)
  /-- A call of a function by its name. -/
  | call (name : Word) (args : List Expr)
  /-- A call of a value. -/
  | callValue (callee : Expr)
  /-- An access to a member. -/
  | member (receiver : Receiver) (name : MemberName) (access : MemberAccess) (nullsafe : Bool)
  /-- A constant. -/
  | constant (name : Word)
  /-- The start of a type's body; the type is the innermost enclosing one. -/
  | typeBody

/-- A node that the walk meets, with what is in force there. -/
structure Event where
  place : Place
  reference : Reference

/-- A walk that lists events. -/
abbrev Tracker := Walk Place Event

namespace Tracker

/-- The name of an anonymous class while its body is walked. -/
def anonymousClass : String := "class@anonymous"

/-- Meets a node. -/
def refer (reference : Reference) : Tracker :=
  .meet fun p => { place := p, reference := reference }

/-- Changes what names mean. -/
def changeContext (f : Context → Context) : Tracker :=
  .change fun p => { p with context := f p.context }

/-- Changes what is known of the local variables. -/
def changeLocals (f : Locals → Locals) : Tracker :=
  .change fun p => { p with locals := f p.locals }

/-- The class names of a type. -/
def typeHint (hint : TypeHint) : Tracker :=
  .each (fun name => refer (.typeName name .typePosition)) hint.names

/-- The class names of a type that may be missing. -/
def typeHint? : Option TypeHint → Tracker
  | none => .skip
  | some hint => typeHint hint

/-- The class names of a clause. -/
def clause (names : List Word) : Tracker :=
  .each (fun name => refer (.typeName name .inheritanceClause)) names

/-- The names of an import statement; each comes into force before it is met. -/
def importAll (kind : NameKind) (items : List ImportItem) : Tracker :=
  .each (fun item =>
    .andThen (changeContext (·.addImport kind item.localName item.name.text))
      (refer (.imported kind item.name))) items

/-- Binds a parameter of a function that starts at `ctx`. -/
def bindParam (r : Resolver) (ctx : Context) (l : Locals) : Param → Locals
  | .mk name hint doc _ _ _ => l.bind name ((hint.or doc).bind (r.hintType? ctx))

/-- A function body: its variables are the parameters, and of what it captures nothing is known. The
variables around it are the same before and after. -/
def functionBody (r : Resolver) (params : List Param) (captured : List String) (body : Tracker) :
    Tracker :=
  .within
    (fun p =>
      let bound := params.foldl (bindParam r p.context) p.locals.nested
      { p with locals := captured.foldl Locals.forget bound })
    (fun before after => { after with locals := before.locals })
    body

/-- The body of a type declaration. -/
def typeBody (name : Option Word) (body : Tracker) : Tracker :=
  .inOrder [
    changeContext fun ctx =>
      ctx.pushType (match name with
        | some word => ctx.qualify word.text
        | none => anonymousClass),
    refer .typeBody,
    body,
    changeContext Context.popType]

/-- A value is assigned to a variable. -/
def assign (r : Resolver) (name : String) (assigned : Expr) : Tracker :=
  if name = "this" then .skip
  else .change fun p => { p with locals := p.locals.assign name (r.value p assigned) }

/-- The variable that a catch clause binds. -/
def bindCaught (r : Resolver) (types : List Word) : Option String → Tracker
  | none => .skip
  | some var =>
    .change fun p =>
      { p with locals := p.locals.bind var (types.head?.bind (r.namedType? p.context)) }

/-- A documented type of a variable. -/
def document (r : Resolver) (var : String) (hint : TypeHint) : Tracker :=
  .change fun p =>
    match r.hintType? p.context hint with
    | some type => { p with locals := p.locals.document var type }
    | none => p

end Tracker

/-- Whether an expression is read, or takes part in a destructuring as a target. -/
inductive Mode where
  | read
  | write
deriving DecidableEq, Inhabited

/-- The name of a variable. -/
def Tree.Expr.variable? : Expr → Option String
  | .var name _ => some name
  | _ => none

namespace Tracker

mutual

/-- An expression. As a target, a variable is written and an array is a list of targets. -/
def expr (r : Resolver) (mode : Mode) : Expr → Tracker
  | .var name _ =>
    match mode with
    | .read => .skip
    | .write => changeLocals (·.forget name)
  | .text _ _ => .skip
  | .literal _ => .skip
  | .constant name => refer (.constant name)
  | .new target args _ =>
    .inOrder [operand r target, refer (.operand target .instantiation),
      refer (.construction target), exprs r .read args]
  | .newAnonymous decl args _ => .inOrder [exprs r .read args, classDecl r decl]
  | .call (.named name) args _ => .inOrder [refer (.call name args), exprs r .read args]
  | .call (.value callee) args _ =>
    .inOrder [expr r .read callee, refer (.callValue callee), exprs r .read args]
  | .methodCall receiver method args nullsafe _ =>
    .inOrder [expr r .read receiver, memberName r method,
      refer (.member (.object receiver) method .instanceMethod nullsafe), exprs r .read args]
  | .property receiver name nullsafe _ =>
    .inOrder [expr r .read receiver, memberName r name,
      refer (.member (.object receiver) name .instanceProperty nullsafe)]
  | .staticCall target method args _ =>
    .inOrder [operand r target, refer (.operand target .staticMemberAccess), memberName r method,
      refer (.member (.type target) method .staticMethod false), exprs r .read args]
  | .staticProperty target name _ =>
    .inOrder [operand r target, refer (.operand target .staticMemberAccess), memberName r name,
      refer (.member (.type target) name .staticProperty false)]
  | .classConstant target name _ =>
    .inOrder [operand r target, refer (.operand target .constantAccess),
      if Text.sameFolded name.text "class" then .skip
      else refer (.member (.type target) (.ident name) .constant false)]
  | .instanceOf subject target _ =>
    .inOrder [expr r .read subject, operand r target, refer (.operand target .typePosition)]
  | .assign target assigned _ =>
    .inOrder [expr r .read assigned,
      match target.variable? with
      | some name => assign r name assigned
      | none => expr r .write target]
  | .array items _ => exprs r mode items
  | .closure ps captured returns body _ =>
    .inOrder [params r ps, typeHint? returns, functionBody r ps captured (stmts r body)]
  | .arrow ps returns body _ =>
    .inOrder [params r ps, typeHint? returns, functionBody r ps [] (expr r .read body)]
  | .compound children _ => exprs r .read children

/-- A list of expressions. -/
def exprs (r : Resolver) (mode : Mode) : List Expr → Tracker
  | [] => .skip
  | e :: es => (expr r mode e).andThen (exprs r mode es)

/-- An expression that may be missing. -/
def expr? (r : Resolver) (mode : Mode) : Option Expr → Tracker
  | none => .skip
  | some e => expr r mode e

/-- What is evaluated to find a class. -/
def operand (r : Resolver) : ClassRef → Tracker
  | .dynamic e => expr r .read e
  | .named _ => .skip
  | .selfType _ => .skip
  | .staticType _ => .skip
  | .parentType _ => .skip

/-- What is evaluated to find a member's name. -/
def memberName (r : Resolver) : MemberName → Tracker
  | .dynamic e => expr r .read e
  | .ident _ => .skip

/-- The types and defaults of parameters. -/
def params (r : Resolver) : List Param → Tracker
  | [] => .skip
  | .mk _ hint _ default _ _ :: ps => .inOrder [typeHint? hint, expr? r .read default, params r ps]

/-- A declaration of a type: its clauses, then its body. -/
def classDecl (r : Resolver) : ClassDecl → Tracker
  | .mk _ name parents interfaces ms =>
    .inOrder [clause parents, clause interfaces, typeBody name (members r ms)]

/-- The members of a type. -/
def members (r : Resolver) : List Member → Tracker
  | [] => .skip
  | m :: ms => (member r m).andThen (members r ms)

/-- A member of a type. -/
def member (r : Resolver) : Member → Tracker
  | .method _ _ _ ps returns body =>
    .inOrder [params r ps, typeHint? returns, functionBody r ps [] (stmts r body)]
  | .property _ _ _ hint _ default => .inOrder [typeHint? hint, expr? r .read default]
  | .constant _ _ e => expr r .read e
  | .enumCase _ e => expr? r .read e
  | .traitUse traits => clause traits

/-- A statement. -/
def stmt (r : Resolver) : Stmt → Tracker
  | .namespaceLine name => changeContext (·.enterNamespace (name.map Word.text))
  | .namespaceBlock name body =>
    .inOrder [changeContext (·.enterNamespace (name.map Word.text)), stmts r body,
      changeContext (·.enterNamespace none)]
  | .imports kind items => importAll kind items
  | .classLike decl => classDecl r decl
  | .function _ ps returns body =>
    .inOrder [params r ps, typeHint? returns, functionBody r ps [] (stmts r body)]
  | .constants items => constItems r items
  | .expr e => expr r .read e
  | .returned e => expr? r .read e
  | .echo es => exprs r .read es
  | .branch cond thenBody elseBody =>
    .inOrder [expr r .read cond, stmts r thenBody, stmts r elseBody]
  | .loop header body => .inOrder [exprs r .read header, stmts r body]
  | .forEach subject key element body =>
    .inOrder [expr r .read subject, expr? r .write key, expr r .write element, stmts r body]
  | .attempt body catches cleanup =>
    .inOrder [stmts r body, catchClauses r catches, stmts r cleanup]
  | .block body => stmts r body
  | .varDoc var hint => document r var hint
  | .globals vars => changeLocals fun l => vars.foldl Locals.forget l

/-- A list of statements. -/
def stmts (r : Resolver) : List Stmt → Tracker
  | [] => .skip
  | s :: ss => (stmt r s).andThen (stmts r ss)

/-- The values of a constant statement. -/
def constItems (r : Resolver) : List ConstItem → Tracker
  | [] => .skip
  | .mk _ e :: items => (expr r .read e).andThen (constItems r items)

/-- Catch clauses: the types, the variable that is bound, and the body of each. -/
def catchClauses (r : Resolver) : List Catch → Tracker
  | [] => .skip
  | .mk types var body :: catches =>
    .inOrder [.each (fun name => refer (.typeName name .typePosition)) types,
      bindCaught r types var, stmts r body, catchClauses r catches]

end

end Tracker

/-- The events of a file, in the order of the walk. -/
def eventsOf (r : Resolver) (hopLimit : Nat) (stmts : List Stmt) : List Event :=
  ((Tracker.stmts r stmts).run { locals := .start hopLimit }).1

end CrossReference
