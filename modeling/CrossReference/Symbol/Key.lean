import CrossReference.Symbol.Kind

/-!
# Keys of symbols

Two spellings name the same symbol when they have the same key: its kind, and its qualified name
with the case folded where the language ignores it. The last part of a property or constant keeps
its case.
-/

namespace CrossReference

/-- What identifies a symbol. -/
structure SymbolKey where
  kind : SymbolKind
  folded : String
deriving DecidableEq, Inhabited

namespace SymbolKey

/-- A qualified name of the given kind with its case folded as the language does. -/
def fold (kind : SymbolKind) (qualified : String) : String :=
  if kind.ignoresCase then
    Name.key qualified
  else
    let name := Name.relative qualified
    match Text.splitLast? Name.memberMark name with
    | some (owner, member) => Name.member (Text.foldCase owner) member
    | none =>
      match Text.splitLast? (String.ofList [Name.separator]) name with
      | some (outer, inner) => Name.join (Text.foldCase outer) inner
      | none => name

/-- The key of a qualified name. -/
def ofName (kind : SymbolKind) (qualified : String) : SymbolKey where
  kind := kind
  folded := fold kind qualified

end SymbolKey

namespace NameKind

/-- Equality of qualified names of one family. -/
def sameName (kind : NameKind) (a b : String) : Bool :=
  match kind with
  | classLike | function => Name.same a b
  | constant => SymbolKey.fold .constant a == SymbolKey.fold .constant b

end NameKind
end CrossReference
