import CrossReference.Tree.Word

/-!
# Syntax trees

The tree of a file, as far as a search for usages looks at it. Each node that can name something
keeps the name as written and its span; what the search does not care about is a `compound`
expression or a `block`.
-/

namespace CrossReference
namespace Tree

/-- Who may use a member. -/
inductive Visibility where
  | everyone
  | descendants
  | owner
deriving DecidableEq, Inhabited

/-- The kinds of type declarations. -/
inductive ClassKind where
  | classDecl
  | interfaceDecl
  | traitDecl
  | enumDecl
deriving DecidableEq, Inhabited

/-- Every kind of type declaration. -/
def ClassKind.all : List ClassKind :=
  [classDecl, interfaceDecl, traitDecl, enumDecl]

/-- The word for a kind of type declaration. -/
def ClassKind.render : ClassKind → String
  | classDecl => "class"
  | interfaceDecl => "interface"
  | traitDecl => "trait"
  | enumDecl => "enum"

mutual

/-- Expressions. The last argument is the span. -/
inductive Expr where
  | var (name : String) (span : Span)
  | text (value : String) (span : Span)
  | literal (span : Span)
  | new (operand : ClassRef) (args : List Expr) (span : Span)
  | newAnonymous (decl : ClassDecl) (args : List Expr) (span : Span)
  | call (callee : Callee) (args : List Expr) (span : Span)
  | methodCall (receiver : Expr) (method : MemberName) (args : List Expr) (nullsafe : Bool)
      (span : Span)
  | property (receiver : Expr) (name : MemberName) (nullsafe : Bool) (span : Span)
  | staticCall (operand : ClassRef) (method : MemberName) (args : List Expr) (span : Span)
  | staticProperty (operand : ClassRef) (name : MemberName) (span : Span)
  | classConstant (operand : ClassRef) (name : Word) (span : Span)
  /-- A constant is nothing but its name. Its own span is left out: it is that of the name, and
  nothing reads it apart from the name. -/
  | constant (name : Word)
  | instanceOf (subject : Expr) (operand : ClassRef) (span : Span)
  | assign (target : Expr) (value : Expr) (span : Span)
  | array (items : List Expr) (span : Span)
  | closure (params : List Param) (captured : List String) (returns : Option TypeHint)
      (body : List Stmt) (span : Span)
  | arrow (params : List Param) (returns : Option TypeHint) (body : Expr) (span : Span)
  | compound (children : List Expr) (span : Span)

/-- What stands in the place of a class: a name, a keyword, or an expression. -/
inductive ClassRef where
  | named (name : Word)
  | selfType (span : Span)
  | staticType (span : Span)
  | parentType (span : Span)
  | dynamic (value : Expr)

/-- What stands in the place of a member's name. -/
inductive MemberName where
  | ident (name : Word)
  | dynamic (value : Expr)

/-- What is called. -/
inductive Callee where
  | named (name : Word)
  | value (callee : Expr)

/-- A parameter, with its written type, its documented type, and its visibility if it declares a
property as well. -/
inductive Param where
  | mk (name : String) (hint : Option TypeHint) (doc : Option TypeHint) (default : Option Expr)
      (promoted : Option Visibility) (span : Span)

/-- A declaration of a type; without a name it is anonymous. -/
inductive ClassDecl where
  | mk (kind : ClassKind) (name : Option Word) (parents : List Word) (interfaces : List Word)
      (members : List Member)

/-- What a type declaration holds. -/
inductive Member where
  | method (name : Word) (visibility : Visibility) (isStatic : Bool) (params : List Param)
      (returns : Option TypeHint) (body : List Stmt)
  | property (name : Word) (visibility : Visibility) (isStatic : Bool) (hint : Option TypeHint)
      (doc : Option TypeHint) (default : Option Expr)
  | constant (name : Word) (visibility : Visibility) (value : Expr)
  | enumCase (name : Word) (value : Option Expr)
  | traitUse (traits : List Word)

/-- Statements. -/
inductive Stmt where
  | namespaceLine (name : Option Word)
  | namespaceBlock (name : Option Word) (body : List Stmt)
  | imports (kind : NameKind) (items : List ImportItem)
  | classLike (decl : ClassDecl)
  | function (name : Word) (params : List Param) (returns : Option TypeHint) (body : List Stmt)
  | constants (items : List ConstItem)
  | expr (value : Expr)
  | returned (value : Option Expr)
  | echo (values : List Expr)
  | branch (cond : Expr) (thenBody : List Stmt) (elseBody : List Stmt)
  | loop (header : List Expr) (body : List Stmt)
  | forEach (subject : Expr) (key : Option Expr) (value : Expr) (body : List Stmt)
  | attempt (body : List Stmt) (catches : List Catch) (cleanup : List Stmt)
  | block (body : List Stmt)
  | varDoc (var : String) (hint : TypeHint)
  | globals (vars : List String)

/-- One constant of a constant statement. -/
inductive ConstItem where
  | mk (name : Word) (value : Expr)

/-- One catch clause. -/
inductive Catch where
  | mk (types : List Word) (var : Option String) (body : List Stmt)

end

instance : Inhabited Expr := ⟨.literal default⟩

instance : Inhabited Stmt := ⟨.block []⟩

namespace Expr

/-- Where an expression stands. -/
def span : Expr → Span
  | var _ span => span
  | text _ span => span
  | literal span => span
  | new _ _ span => span
  | newAnonymous _ _ span => span
  | call _ _ span => span
  | methodCall _ _ _ _ span => span
  | property _ _ _ span => span
  | staticCall _ _ _ span => span
  | staticProperty _ _ span => span
  | classConstant _ _ span => span
  | constant name => name.span
  | instanceOf _ _ span => span
  | assign _ _ span => span
  | array _ span => span
  | closure _ _ _ _ span => span
  | arrow _ _ _ span => span
  | compound _ span => span

/-- The arguments of an expression that takes arguments. -/
def args? : Expr → Option (List Expr)
  | new _ args _ => some args
  | newAnonymous _ args _ => some args
  | call _ args _ => some args
  | methodCall _ _ args _ _ => some args
  | staticCall _ _ args _ => some args
  | _ => none

/-- The expression with other arguments; one that takes none stays as it is. -/
def withArgs (e : Expr) (args : List Expr) : Expr :=
  match e with
  | new operand _ span => new operand args span
  | newAnonymous decl _ span => newAnonymous decl args span
  | call callee _ span => call callee args span
  | methodCall receiver method _ nullsafe span => methodCall receiver method args nullsafe span
  | staticCall operand method _ span => staticCall operand method args span
  | other => other

end Expr

end Tree
end CrossReference
