import CrossReference.Source.File

/-!
# What a tree mentions

The names, identifiers and string literals of a tree, in the order of the text, and a mark for each
member name that is computed. Names of classes and of namespaces are told apart from other words.
Variables are no mentions.
-/

namespace CrossReference
namespace Tree

/-- Something that a tree spells out, or a member name that it computes. -/
inductive Mention where
  | className (text : String)
  | namespaceName (text : String)
  | word (text : String)
  | literal (text : String)
  | dynamicMember
deriving DecidableEq, Inhabited

namespace Mention

/-- What is spelled out. -/
def text? : Mention → Option String
  | className text => some text
  | namespaceName text => some text
  | word text => some text
  | literal text => some text
  | dynamicMember => none

/-- A name of the given family. -/
def ofName : NameKind → Word → Mention
  | .classLike, name => className name.text
  | .function, name => word name.text
  | .constant, name => word name.text

end Mention

namespace Mentions

def classNames (names : List Word) : List Mention :=
  names.map fun name => .className name.text

def typeHint? : Option TypeHint → List Mention
  | none => []
  | some hint => classNames hint.names

def importItem (kind : NameKind) (item : ImportItem) : List Mention :=
  .ofName kind item.name :: (item.renamed.map fun w => Mention.word w.text).toList

mutual

def expr : Expr → List Mention
  | .var _ _ => []
  | .text value _ => [.literal value]
  | .literal _ => []
  | .constant name => [.word name.text]
  | .new target args _ => operand target ++ exprs args
  | .newAnonymous decl args _ => exprs args ++ classDecl decl
  | .call (.named name) args _ => .word name.text :: exprs args
  | .call (.value callee) args _ => expr callee ++ exprs args
  | .methodCall receiver method args _ _ => expr receiver ++ memberName method ++ exprs args
  | .property receiver name _ _ => expr receiver ++ memberName name
  | .staticCall target method args _ => operand target ++ memberName method ++ exprs args
  | .staticProperty target name _ => operand target ++ memberName name
  | .classConstant target name _ => operand target ++ [.word name.text]
  | .instanceOf subject target _ => expr subject ++ operand target
  | .assign target assigned _ => expr target ++ expr assigned
  | .array items _ => exprs items
  | .closure ps _ returns body _ => params ps ++ typeHint? returns ++ stmts body
  | .arrow ps returns body _ => params ps ++ typeHint? returns ++ expr body
  | .compound children _ => exprs children

def exprs : List Expr → List Mention
  | [] => []
  | e :: es => expr e ++ exprs es

def expr? : Option Expr → List Mention
  | none => []
  | some e => expr e

def operand : ClassRef → List Mention
  | .named name => [.className name.text]
  | .dynamic e => expr e
  | .selfType _ => []
  | .staticType _ => []
  | .parentType _ => []

def memberName : MemberName → List Mention
  | .ident name => [.word name.text]
  | .dynamic e => .dynamicMember :: expr e

/-- Documented types count as well as written ones. -/
def params : List Param → List Mention
  | [] => []
  | .mk _ hint doc default _ _ :: ps =>
    typeHint? hint ++ typeHint? doc ++ expr? default ++ params ps

def classDecl : ClassDecl → List Mention
  | .mk _ name parents interfaces ms =>
    (name.map fun w => Mention.className w.text).toList ++ classNames parents ++
      classNames interfaces ++ members ms

def members : List Member → List Mention
  | [] => []
  | m :: ms => member m ++ members ms

def member : Member → List Mention
  | .method name _ _ ps returns body =>
    .word name.text :: (params ps ++ typeHint? returns ++ stmts body)
  | .property name _ _ hint doc default =>
    .word name.text :: (typeHint? hint ++ typeHint? doc ++ expr? default)
  | .constant name _ e => .word name.text :: expr e
  | .enumCase name e => .word name.text :: expr? e
  | .traitUse traits => classNames traits

def stmt : Stmt → List Mention
  | .namespaceLine name => (name.map fun w => Mention.namespaceName w.text).toList
  | .namespaceBlock name body =>
    (name.map fun w => Mention.namespaceName w.text).toList ++ stmts body
  | .imports kind items => items.flatMap (importItem kind)
  | .classLike decl => classDecl decl
  | .function name ps returns body =>
    .word name.text :: (params ps ++ typeHint? returns ++ stmts body)
  | .constants items => constItems items
  | .expr e => expr e
  | .returned e => expr? e
  | .echo es => exprs es
  | .branch cond thenBody elseBody => expr cond ++ stmts thenBody ++ stmts elseBody
  | .loop header body => exprs header ++ stmts body
  | .forEach subject key element body => expr subject ++ expr? key ++ expr element ++ stmts body
  | .attempt body catches cleanup => stmts body ++ catchClauses catches ++ stmts cleanup
  | .block body => stmts body
  | .varDoc _ hint => classNames hint.names
  | .globals _ => []

def stmts : List Stmt → List Mention
  | [] => []
  | s :: ss => stmt s ++ stmts ss

def constItems : List ConstItem → List Mention
  | [] => []
  | .mk name e :: items => .word name.text :: (expr e ++ constItems items)

def catchClauses : List Catch → List Mention
  | [] => []
  | .mk types _ body :: catches => classNames types ++ stmts body ++ catchClauses catches

end

end Mentions
end Tree

/-- The statements of a file; one that could not be parsed has none. -/
def SourceFile.stmts (f : SourceFile) : List Tree.Stmt :=
  f.tree.getD []

/-- What the tree of a file mentions. -/
def SourceFile.mentions (f : SourceFile) : List Tree.Mention :=
  Tree.Mentions.stmts f.stmts

/-- The text of a file contains every name, identifier and string literal of its tree. -/
def SourceFile.IsFaithful (f : SourceFile) : Prop :=
  ∀ word ∈ f.mentions.filterMap Tree.Mention.text?, Text.contains f.text word = true

instance (f : SourceFile) : Decidable f.IsFaithful :=
  inferInstanceAs (Decidable (∀ word ∈ _, _))

end CrossReference
