/-!
# File identities

A number for each path that was ever seen. Declarations record the number of the file that made
them, so that indexing a file again replaces only its own.
-/

namespace CrossReference

/-- The number of a file. -/
structure FileId where
  index : Nat
deriving DecidableEq, Inhabited

namespace FileId

/-- A file without a known path, as shown to users. -/
def render (id : FileId) : String :=
  s!"file#{id.index}"

/-- A file's number with the name of its type. -/
def describe (id : FileId) : String :=
  s!"FileId({id.index})"

end FileId
end CrossReference
