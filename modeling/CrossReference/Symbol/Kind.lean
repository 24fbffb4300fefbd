import CrossReference.Tree.Node

/-!
# Kinds of symbols and of member accesses

What a declared symbol can be, and how a member can be reached. Names of properties and constants
keep their case; all other names ignore it.
-/

namespace CrossReference

/-- What a declared symbol is. Class constants and enum cases are constants, too. -/
inductive SymbolKind where
  | type (kind : Tree.ClassKind)
  | function
  | method
  | property
  | constant
deriving DecidableEq, Inhabited

namespace SymbolKind

/-- Every kind. -/
def all : List SymbolKind :=
  Tree.ClassKind.all.map type ++ [function, method, property, constant]

/-- The word for a kind. -/
def render : SymbolKind → String
  | type kind => kind.render
  | function => "function"
  | method => "method"
  | property => "property"
  | constant => "constant"

/-- Whether the symbol is a type. -/
def isType : SymbolKind → Bool
  | type _ => true
  | _ => false

/-- Whether a type can own a symbol of this kind. -/
def isMember : SymbolKind → Bool
  | method | property | constant => true
  | _ => false

/-- Whether names of this kind ignore case. The name of an owning type always does. -/
def ignoresCase : SymbolKind → Bool
  | property | constant => false
  | _ => true

/-- Equality of member names of one kind. -/
def sameMember (kind : SymbolKind) (a b : String) : Bool :=
  if kind.ignoresCase then Text.sameFolded a b else a == b

end SymbolKind

/-- The ways to reach a member. -/
inductive MemberAccess where
  | instanceMethod
  | staticMethod
  | instanceProperty
  | staticProperty
  | constant
deriving DecidableEq, Inhabited

/-- The kind of member that an access reaches. -/
def MemberAccess.symbolKind : MemberAccess → SymbolKind
  | instanceMethod | staticMethod => .method
  | instanceProperty | staticProperty => .property
  | constant => .constant

/-- The catch-all methods that a type itself declares. -/
structure Handlers where
  /-- Receives calls of undeclared methods. -/
  call : Bool := false
  /-- Receives static calls of undeclared methods. -/
  staticCall : Bool := false
  /-- Receives accesses to undeclared properties. -/
  property : Bool := false
deriving DecidableEq, Inhabited

namespace Handlers

/-- Whether there is any handler. -/
def any (h : Handlers) : Bool :=
  h.call || h.staticCall || h.property

/-- The handlers of a type that declares `method` as well. -/
def note (h : Handlers) (method : String) : Handlers :=
  let name := Text.foldCase method
  if name == "__call" then { h with call := true }
  else if name == "__callstatic" then { h with staticCall := true }
  else if ["__get", "__set", "__isset", "__unset"].contains name then { h with property := true }
  else h

/-- The handlers of a type that declares `methods`. -/
def ofMethods (methods : List String) : Handlers :=
  methods.foldl note {}

/-- Whether an undeclared member reached by `access` ends up in a handler. -/
def handles (h : Handlers) : MemberAccess → Bool
  | .instanceMethod => h.call
  | .staticMethod => h.staticCall
  | .instanceProperty => h.property
  | .staticProperty | .constant => false

end Handlers
end CrossReference
