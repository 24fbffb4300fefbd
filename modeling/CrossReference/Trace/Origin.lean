/-!
# Origins

How the type of an object or the text of a string is known, from what is spelled out to what cannot
be followed.
-/

namespace CrossReference

/-- How something about a value is known. -/
inductive Origin where
  /-- It is spelled out at the site. -/
  | explicit
  /-- The value is the current object, or a keyword names its type. -/
  | selfRef
  /-- The object is made in the same expression. -/
  | constructed
  /-- A declared type says so. -/
  | annotated
  /-- It was followed through this many assignments. -/
  | traced (hops : Nat)
  | untraceable
deriving DecidableEq, Inhabited

namespace Origin

/-- How certain the origin makes it; higher is more certain. -/
def rank : Origin → Nat
  | explicit | selfRef | constructed => 3
  | annotated => 2
  | traced _ => 1
  | untraceable => 0

/-- The less certain of two origins, the first if they are equally certain. -/
def weaker (a b : Origin) : Origin :=
  if b.rank < a.rank then b else a

/-- Whether anything is known. -/
def isTraceable (o : Origin) : Bool :=
  o ≠ untraceable

end Origin
end CrossReference
