import CrossReference.Declaration.Collect

/-!
# Stored declarations

A store keeps the declarations of files by path and digest, so that several workspaces need to
collect them once only. Asking for a path with another digest drops what is stored for it.
-/

namespace CrossReference

/-- The declarations that were collected, with the digest of the contents that they came from. -/
structure DeclarationStore where
  entries : OrderedMap String (String × Declarations) := ∅

namespace DeclarationStore

instance : EmptyCollection DeclarationStore := ⟨{}⟩

instance : Inhabited DeclarationStore := ⟨∅⟩

/-- The number of stored files. -/
def size (s : DeclarationStore) : Nat :=
  s.entries.size

/-- The declarations of a path with the given digest. What was stored for other contents of the path
is dropped. -/
def fetch (s : DeclarationStore) (path digest : String) :
    Option Declarations × DeclarationStore :=
  match s.entries.find? path with
  | none => (none, s)
  | some (stored, found) =>
    if stored = digest then (some found, s) else (none, { entries := s.entries.erase path })

/-- Stores declarations, in the place of what the path had before. -/
def put (s : DeclarationStore) (path digest : String) (found : Declarations) :
    DeclarationStore where
  entries := s.entries.insert path (digest, found)

/-- Drops what is stored for a path. -/
def invalidate (s : DeclarationStore) (path : String) : DeclarationStore where
  entries := s.entries.erase path

end DeclarationStore
end CrossReference
