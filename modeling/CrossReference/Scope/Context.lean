import CrossReference.Name
import CrossReference.OrderedMap

/-!
# Lexical contexts

What is in force at a place of a file: the namespace, the imports of that namespace, and the types
whose declarations enclose the place.
-/

namespace CrossReference

/-- The aliases that the imports of a namespace define, each with its target. -/
structure Imports where
  classLikes : OrderedMap String String := ∅
  functions : OrderedMap String String := ∅
  constants : OrderedMap String String := ∅

namespace Imports

instance : EmptyCollection Imports := ⟨{}⟩

instance : Inhabited Imports := ⟨∅⟩

/-- The spelling under which an alias is kept; only constants keep their case. -/
def aliasKey (kind : NameKind) (name : String) : String :=
  match kind with
  | .constant => name
  | .classLike | .function => Text.foldCase name

/-- The aliases of one family. -/
def family (i : Imports) : NameKind → OrderedMap String String
  | .classLike => i.classLikes
  | .function => i.functions
  | .constant => i.constants

/-- Makes `name` an alias of `target`, in the place of an earlier one. -/
def add (i : Imports) (kind : NameKind) (name target : String) : Imports :=
  let aliases := (i.family kind).insert (aliasKey kind name) (Name.relative target)
  match kind with
  | .classLike => { i with classLikes := aliases }
  | .function => { i with functions := aliases }
  | .constant => { i with constants := aliases }

/-- The target of an alias. -/
def target? (i : Imports) (kind : NameKind) (name : String) : Option String :=
  (i.family kind).find? (aliasKey kind name)

/-- The number of aliases. -/
def size (i : Imports) : Nat :=
  i.classLikes.size + i.functions.size + i.constants.size

end Imports

/-- What is in force at a place of a file. -/
structure Context where
  /-- The namespace without separators at its ends; `none` is the global one. -/
  currentNamespace : Option String := none
  imports : Imports := ∅
  /-- The enclosing types, the innermost first. -/
  enclosing : List String := []

namespace Context

instance : EmptyCollection Context := ⟨{}⟩

instance : Inhabited Context := ⟨∅⟩

/-- Enters a namespace. The imports of the one before are no longer in force. -/
def enterNamespace (ctx : Context) (name : Option String) : Context :=
  { ctx with
    currentNamespace := (name.map Name.bare).filter (· ≠ "")
    imports := ∅ }

/-- The start of a file inside the namespace `name`. -/
def inNamespace (name : String) : Context :=
  enterNamespace ∅ (some name)

/-- Makes `name` an alias of `target` until the next namespace. -/
def addImport (ctx : Context) (kind : NameKind) (name target : String) : Context :=
  { ctx with imports := ctx.imports.add kind name target }

/-- Enters the declaration of a type. -/
def pushType (ctx : Context) (name : String) : Context :=
  { ctx with enclosing := name :: ctx.enclosing }

/-- Leaves the innermost declaration of a type. -/
def popType (ctx : Context) : Context :=
  { ctx with enclosing := ctx.enclosing.tail }

/-- The innermost enclosing type. -/
def currentType? (ctx : Context) : Option String :=
  ctx.enclosing.head?

/-- The type whose members are being declared. -/
def owner (ctx : Context) : String :=
  ctx.currentType?.getD ""

/-- `name` inside the current namespace. -/
def qualify (ctx : Context) (name : String) : String :=
  match ctx.currentNamespace with
  | some outer => Name.join outer (Name.relative name)
  | none => Name.relative name

end Context
end CrossReference
