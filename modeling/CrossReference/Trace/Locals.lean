import CrossReference.OrderedMap
import CrossReference.Trace.Origin

/-!
# Local variables

What is known about the values of local variables inside one function body. An assignment from
another variable adds a hop; beyond the limit a value can no longer be followed. Nothing is followed
across the boundary of a function.
-/

namespace CrossReference

/-- What is known about a value. -/
structure Value where
  /-- The type of the object. -/
  type : Option String := none
  /-- The contents of the string. -/
  text : Option String := none
  origin : Origin
deriving DecidableEq, Inhabited

namespace Value

/-- A value of which nothing is known. -/
def untraceable : Value where
  origin := .untraceable

/-- An object; without a type nothing is known of it. -/
def object (type : Option String) (origin : Origin) : Value :=
  match type with
  | some name => { type := some name, origin := origin }
  | none => untraceable

/-- A string with known contents. -/
def string (text : String) (origin : Origin) : Value where
  text := some text
  origin := origin

/-- Whether anything is known. -/
def isKnown (v : Value) : Bool :=
  v.origin.isTraceable && (v.type.isSome || v.text.isSome)

/-- The value after one more assignment; beyond the limit nothing is known of it. -/
def hop (limit : Nat) (v : Value) : Value :=
  match v.origin with
  | .untraceable => untraceable
  | .traced hops =>
    if hops + 1 ≤ limit then { v with origin := .traced (hops + 1) } else untraceable
  | _ => if 1 ≤ limit then { v with origin := .traced 1 } else untraceable

end Value

/-- The local variables of a function body. -/
structure Locals where
  values : OrderedMap String Value := ∅
  /-- Documented types, for variables of which no assignment tells the type. -/
  docs : OrderedMap String String := ∅
  /-- Assignments through which a value is followed. -/
  hopLimit : Nat

namespace Locals

/-- No variables. -/
def start (hopLimit : Nat) : Locals where
  hopLimit := hopLimit

instance : Inhabited Locals := ⟨start 0⟩

/-- The variables at the start of a function inside this one. -/
def nested (l : Locals) : Locals :=
  start l.hopLimit

/-- Binds a variable whose type, if any, is declared. -/
def bind (l : Locals) (name : String) (type : Option String) : Locals :=
  { l with values := l.values.insert name (.object type .annotated) }

/-- Assigns a value. -/
def assign (l : Locals) (name : String) (v : Value) : Locals :=
  { l with values := l.values.insert name (v.hop l.hopLimit) }

/-- Documents the type of a variable. -/
def document (l : Locals) (name type : String) : Locals :=
  { l with docs := l.docs.insert name type }

/-- Nothing is known of a variable any more. -/
def forget (l : Locals) (name : String) : Locals :=
  { l with values := l.values.insert name .untraceable }

/-- What is known of a variable. -/
def get (l : Locals) (name : String) : Value :=
  let v := (l.values.find? name).getD .untraceable
  match v.type, l.docs.find? name with
  | none, some type => { v with type := some type, origin := .annotated }
  | _, _ => v

end Locals
end CrossReference
