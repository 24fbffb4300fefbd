import CrossReference.Name
import CrossReference.Source.Span

/-!
# Words of the source

Names and identifiers as they are written, each with the span where it stands.
-/

namespace CrossReference
namespace Tree

/-- A name or an identifier as written. -/
structure Word where
  text : String
  span : Span
deriving DecidableEq, Inhabited

namespace Word

/-- Whether the name is written from the global namespace. -/
def isAbsolute (w : Word) : Bool :=
  w.text.toList.head? == some Name.separator

/-- Whether the name is written from the current namespace. -/
def isNamespaceRelative (w : Word) : Bool :=
  (w.text.toList.take 10).map Char.toLower == "namespace\\".toList

/-- The last part of the name. -/
def shortName (w : Word) : String :=
  Name.lastPart w.text

end Word

/-- One name of an import statement, with the alias given to it. -/
structure ImportItem where
  name : Word
  renamed : Option Word
deriving DecidableEq, Inhabited

/-- The name under which the import is known in its file. -/
def ImportItem.localName (item : ImportItem) : String :=
  match item.renamed with
  | some word => word.text
  | none => item.name.shortName

/-- A type as written: a name, or a combination of types. -/
inductive TypeHint where
  | named (name : Word)
  | nullable (inner : TypeHint)
  | union (parts : List TypeHint)
  | intersection (parts : List TypeHint)
deriving Inhabited

namespace TypeHint

mutual

/-- The number of types that a type is made of, itself included. -/
def size : TypeHint → Nat
  | named _ => 1
  | nullable inner => inner.size + 1
  | union parts => sizeOfAll parts + 1
  | intersection parts => sizeOfAll parts + 1

/-- The number of types that the types of a list are made of. -/
def sizeOfAll : List TypeHint → Nat
  | [] => 0
  | hint :: hints => hint.size + sizeOfAll hints

end

theorem sizeOfAll_append (hints more : List TypeHint) :
    sizeOfAll (hints ++ more) = sizeOfAll hints + sizeOfAll more := by
  induction hints with
  | nil => simp [sizeOfAll]
  | cons hint hints ih => simp [sizeOfAll, ih, Nat.add_assoc]

/-- A stack, its top first, with the types `parts` put on it. The last one goes first, so that the
first ends up on top. -/
def pushAll (stack parts : List TypeHint) : List TypeHint :=
  parts.reverse.foldl (fun stack part => part :: stack) stack

@[simp] theorem pushAll_eq (stack parts : List TypeHint) :
    pushAll stack parts = parts ++ stack := by
  simp [pushAll]

/-- The names in the types on a stack, those in the topmost type first. -/
def namesOn : List TypeHint → List Word
  | [] => []
  | named name :: rest => name :: namesOn rest
  | nullable inner :: rest => namesOn (inner :: rest)
  | union parts :: rest => namesOn (pushAll rest parts)
  | intersection parts :: rest => namesOn (pushAll rest parts)
termination_by stack => sizeOfAll stack
decreasing_by
  all_goals simp only [sizeOfAll, size, pushAll_eq, sizeOfAll_append]; omega

/-- The names in a type, from left to right. -/
def names (hint : TypeHint) : List Word :=
  namesOn [hint]

end TypeHint

end Tree
end CrossReference
