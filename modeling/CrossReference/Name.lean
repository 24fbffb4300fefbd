import CrossReference.Text.Case
import CrossReference.Text.Cut

/-!
# Qualified names

The spelling of qualified names: namespace parts stand between separators (`App\Ui\Widget`), and a
member follows its type after two colons (`App\Ui\Widget::render`).
-/

namespace CrossReference
namespace Name

/-- The character between the parts of a qualified name. -/
def separator : Char := '\\'

/-- What stands between a type and its member. -/
def memberMark : String := "::"

/-- Whether a character stands between the parts of a qualified name. -/
def isSeparator (c : Char) : Bool :=
  c == separator

/-- `name` without leading separators. -/
def relative (name : String) : String :=
  Text.trimStart isSeparator name

/-- `name` without separators at its ends. -/
def bare (name : String) : String :=
  Text.trimBoth isSeparator name

/-- Whether `name` has a separator. -/
def isQualified (name : String) : Bool :=
  name.toList.any isSeparator

/-- The part of `name` after its last separator. -/
def lastPart (name : String) : String :=
  match Text.cutLast? [separator] name.toList with
  | some (_, after) => String.ofList after
  | none => name

/-- The parts before and after the first separator. -/
def splitHead? (name : String) : Option (String × String) :=
  Text.splitFirst? (String.ofList [separator]) name

/-- `inner` inside the namespace `outer`. -/
def join (outer inner : String) : String :=
  outer ++ String.ofList [separator] ++ inner

/-- The qualified name of a member of `owner`. -/
def member (owner member : String) : String :=
  owner ++ memberMark ++ member

/-- The key of a type or function name: leading separators and ASCII case do not matter. -/
def key (name : String) : String :=
  Text.foldCase (relative name)

/-- Equality of type and function names. -/
def same (a b : String) : Bool :=
  key a == key b

/-- Type keywords that never name a declared type. -/
def builtinTypes : List String :=
  ["int", "integer", "float", "double", "string", "bool", "boolean", "array", "callable",
   "iterable", "object", "mixed", "void", "null", "never", "false", "true", "resource"]

/-- Whether a name in a type is a keyword of the language. -/
def isBuiltinType (name : String) : Bool :=
  builtinTypes.any (Text.sameFolded · name)

/-- The names that stand for the enclosing type. -/
def isSelfKeyword (name : String) : Bool :=
  Text.sameFolded name "self" || Text.sameFolded name "static"

/-- The name that stands for the type that the enclosing type extends. -/
def isParentKeyword (name : String) : Bool :=
  Text.sameFolded name "parent"

/-- The name of a constructor. -/
def isConstructor (name : String) : Bool :=
  Text.sameFolded name "__construct"

theorem same_iff {a b : String} : same a b = true ↔ key a = key b := by
  simp [same]

end Name

/-- The three families of names that a file can import and refer to. -/
inductive NameKind where
  | classLike
  | function
  | constant
deriving DecidableEq, Inhabited

end CrossReference
