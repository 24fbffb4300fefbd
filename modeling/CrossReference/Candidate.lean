import CrossReference.Query.Basic
import CrossReference.Settings

/-!
# Candidate files

A look at the text of a file tells whether it is worth walking. The look may keep a file in vain but
must not drop a file with a usage. A member is reached through types that never spell its owner, so
only the member's own name is looked for, and a file that builds member names at run time is always
kept.
-/

namespace CrossReference

/-- What a file must contain to be worth walking. -/
structure Patterns where
  /-- All of these must occur. -/
  required : List String := []
  /-- Or one of these, in any case. -/
  sufficient : List String := []
  /-- Whether the required texts ignore case. -/
  ignoreCase : Bool := false
deriving DecidableEq, Inhabited

namespace Patterns

/-- Marks of member names that are built at run time. -/
def dynamicMarks : List String :=
  ["->$", "->\x7b", "::$", "::\x7b"]

/-- The patterns of a query. A constructor is reached without any mention of it. -/
def ofQuery (settings : Settings) : Query → Patterns
  | .member _ name kind =>
    if Name.isConstructor name then
      {}
    else
      { required := [name]
        sufficient := dynamicMarks ++ Settings.sortedWords settings.indirectCalls
        ignoreCase := kind = .method }
  | .type name => { required := [Name.lastPart name], ignoreCase := true }
  | .function name => { required := [Name.lastPart name], ignoreCase := true }
  | .constant name => { required := [Name.lastPart name] }

/-- Whether nothing is required, so that every file is a candidate. -/
def isVacuous (p : Patterns) : Bool :=
  p.required.all (· == "")

/-- Whether `needle` occurs in `text` up to case. -/
def containsFolded (text needle : String) : Bool :=
  Text.contains (Text.foldCase text) (Text.foldCase needle)

/-- Whether a file with this text is worth walking. -/
def accept (p : Patterns) (ignoreCase : Bool) (text : String) : Bool :=
  p.required.all (fun needle =>
      if ignoreCase then containsFolded text needle else Text.contains text needle) ||
    p.sufficient.any (containsFolded text)

/-- The places of the texts that are worth walking. -/
def pass (p : Patterns) (ignoreCase : Bool) (texts : List String) : List Nat :=
  (texts.zipIdx.filter fun (text, _) => p.accept ignoreCase text).map Prod.snd

end Patterns

/-- The places of the texts that may hold a usage of what the query asks for. If case matters and no
text is found, the settings may allow a second look without case. -/
def candidates (settings : Settings) (query : Query) (texts : List String) : List Nat :=
  let p := Patterns.ofQuery settings query
  if p.isVacuous then
    List.range texts.length
  else
    let found := p.pass p.ignoreCase texts
    if found.isEmpty && !p.ignoreCase && settings.caseFallback then
      p.pass true texts
    else
      found

end CrossReference
