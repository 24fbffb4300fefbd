import CrossReference.Usage.Evidence

/-!
# Values of expressions

What is known about the value of an expression at a place: from what is spelled out, from declared
types, and from what was followed through local variables.
-/

namespace CrossReference

/-- What is in force at a place inside a body: the names and the local variables. -/
structure Place where
  context : Context := ∅
  locals : Locals

instance : Inhabited Place := ⟨{ locals := default }⟩

namespace Resolver

open CrossReference.Tree

/-- The class that a written type name stands for; keywords of the language stand for none. -/
def namedType? (r : Resolver) (ctx : Context) (name : Word) : Option String :=
  if Name.isBuiltinType name.text then none else some (r.resolve ctx .classLike name.text).name

/-- The first class that a type names. -/
def hintType? (r : Resolver) (ctx : Context) (hint : TypeHint) : Option String :=
  hint.names.findSome? (r.namedType? ctx)

/-- The first declared type of a symbol. -/
def declaredType? (r : Resolver) (s : Symbol) : Option String :=
  s.types.head?.bind r.catalog.resolve?

/-- The value of a member of `receiver`, from the member's declared type. -/
def memberValue (r : Resolver) (receiver : Value) (name : String) (kind : SymbolKind) : Value :=
  match receiver.type with
  | none => .untraceable
  | some type =>
    .object ((r.catalog.findMember? type name kind).bind r.declaredType?)
      (receiver.origin.weaker .annotated)

/-- The value of a call of the function `name`, from its declared type. -/
def callValue (r : Resolver) (ctx : Context) (name : String) : Value :=
  .object
    ((r.catalog.lookup? .function (r.resolve ctx .function name).name).bind r.declaredType?)
    .annotated

/-- The value of a new object whose class is known as `type` says. -/
def newValue (type : Value) : Value :=
  .object type.type (if type.origin = .explicit then .constructed else type.origin)

/-- The value of a class's name as a string. -/
def classNameValue (type : Value) : Value :=
  match type.type with
  | some name => .string name type.origin
  | none => .untraceable

/-- The class that a value denotes when it stands in the place of a class: the one that its text
names, else the class of the object. -/
def denotedType? (v : Value) : Option String :=
  (v.text.map Name.relative).or v.type

mutual

/-- What is known about the value of an expression. -/
def value (r : Resolver) (p : Place) : Expr → Value
  | .var name _ =>
    if name = "this" then .object p.context.currentType? .selfRef else p.locals.get name
  | .text contents _ => .string contents .explicit
  | .classConstant operand name _ =>
    if Text.sameFolded name.text "class" then
      classNameValue (r.classValue p operand).1
    else
      .untraceable
  | .new operand _ _ => newValue (r.classValue p operand).1
  | .methodCall receiver (.ident method) _ _ _ =>
    r.memberValue (r.value p receiver) method.text .method
  | .property receiver (.ident name) _ _ =>
    r.memberValue (r.value p receiver) name.text .property
  | .staticCall operand (.ident method) _ _ =>
    r.memberValue (r.classValue p operand).1 method.text .method
  | .staticProperty operand (.ident name) _ =>
    r.memberValue (r.classValue p operand).1 name.text .property
  | .call (.named name) _ _ => r.callValue p.context name.text
  | .assign _ assigned _ => r.value p assigned
  | _ => .untraceable

/-- The class that stands in the place of a class, and how its name was resolved. -/
def classValue (r : Resolver) (p : Place) : ClassRef → Value × Resolution
  | .named name =>
    let resolved := r.resolve p.context .classLike name.text
    (.object (some resolved.name) .explicit, resolved.resolution)
  | .selfType _ => (.object (r.selfType? p.context) .selfRef, .resolved)
  | .staticType _ => (.object (r.selfType? p.context) .selfRef, .resolved)
  | .parentType _ => (.object (r.parentType? p.context) .selfRef, .resolved)
  | .dynamic inner =>
    let v := r.value p inner
    (.object (denotedType? v) v.origin, .resolved)

end

end Resolver
end CrossReference
