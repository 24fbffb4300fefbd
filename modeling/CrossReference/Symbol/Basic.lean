import CrossReference.Source.FileId
import CrossReference.Symbol.Key

/-!
# Declared symbols

A symbol is one declaration of a file. The types in it are kept as the candidate names that they may
stand for, since what exists is known only after all files were read.
-/

namespace CrossReference

/-- The qualified names that a written name may stand for; the first that is declared counts. -/
abbrev Candidates := List String

/-- One declaration. -/
structure Symbol where
  /-- The last part of the name. -/
  name : String
  qualifiedName : String
  kind : SymbolKind
  file : FileId
  /-- Where the declared name stands. -/
  position : Position := default
  visibility : Option Tree.Visibility := none
  isStatic : Bool := false
  /-- The type that has this member. -/
  owner : Option String := none
  /-- The type of a property, or what a method or function returns. -/
  types : List Candidates := []
  /-- The catch-all methods of a type. -/
  handlers : Handlers := {}
deriving DecidableEq, Inhabited

namespace Symbol

/-- A symbol with the given qualified name. A member's owner stands before the last member mark. -/
def ofName (kind : SymbolKind) (qualified : String) (file : FileId) : Symbol :=
  match Text.splitLast? Name.memberMark qualified with
  | some (owner, member) =>
    if kind.isMember then
      { name := member, qualifiedName := qualified, kind := kind, file := file,
        owner := some owner }
    else
      { name := Name.lastPart qualified, qualifiedName := qualified, kind := kind, file := file }
  | none =>
    { name := Name.lastPart qualified, qualifiedName := qualified, kind := kind, file := file }

/-- What identifies the symbol. -/
def key (s : Symbol) : SymbolKey :=
  .ofName s.kind s.qualifiedName

end Symbol
end CrossReference
