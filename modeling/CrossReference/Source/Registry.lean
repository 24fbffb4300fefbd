import CrossReference.OrderedMap
import CrossReference.Source.FileId

/-!
# The registry of files

Numbers for paths, and the digests of the contents with which files were last indexed. A path keeps
its number for ever, also while its file is not indexed.
-/

namespace CrossReference

/-- The paths that were ever seen, and the digests of the indexed files. -/
structure Registry where
  /-- Each path in the place of its number. -/
  paths : List String := []
  digests : OrderedMap FileId String := ∅

namespace Registry

instance : EmptyCollection Registry := ⟨{}⟩

instance : Inhabited Registry := ⟨∅⟩

/-- The number of a path that was seen before. -/
def lookup? (r : Registry) (path : String) : Option FileId :=
  (r.paths.idxOf? path).map FileId.mk

/-- The number of a path; a new path gets the next number. -/
def register (r : Registry) (path : String) : FileId × Registry :=
  match r.lookup? path with
  | some id => (id, r)
  | none => (⟨r.paths.length⟩, { r with paths := r.paths ++ [path] })

/-- The path with a number. -/
def path? (r : Registry) (id : FileId) : Option String :=
  r.paths[id.index]?

/-- The digest of a file's indexed contents. -/
def digest? (r : Registry) (id : FileId) : Option String :=
  r.digests.find? id

/-- The contents of a file are indexed, with this digest. -/
def setDigest (r : Registry) (id : FileId) (digest : String) : Registry :=
  { r with digests := r.digests.insert id digest }

/-- The contents of a file are no longer indexed. -/
def forget (r : Registry) (id : FileId) : Registry :=
  { r with digests := r.digests.erase id }

/-- The number of indexed files. -/
def size (r : Registry) : Nat :=
  r.digests.size

/-- The indexed files, in the order in which their paths were first seen. -/
def files (r : Registry) : List FileId :=
  ((List.range r.paths.length).map FileId.mk).filter r.digests.contains

end Registry
end CrossReference
