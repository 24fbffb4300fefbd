import CrossReference.Tree.Node

/-!
# Source files

A file as a parser hands it over: its text, and its tree or what went wrong.
-/

namespace CrossReference

/-- A problem that a parser reports. -/
structure ParseError where
  message : String
  /-- Where it is, if the parser knows. -/
  span : Option Span := none
deriving DecidableEq, Inhabited

/-- A file with its text and, if it could be parsed, its statements. -/
structure SourceFile where
  path : String
  text : String
  tree : Option (List Tree.Stmt)
  errors : List ParseError := []
deriving Inhabited

/-- Whether the file has a tree. -/
def SourceFile.isParsed (f : SourceFile) : Bool :=
  f.tree.isSome

end CrossReference
