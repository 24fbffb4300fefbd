/-!
# Walks

A walk goes through a piece of a syntax tree: it reads a state, may change it, and lists what it
meets on the way. Walks are put together in the order in which the pieces stand in the text.
-/

namespace CrossReference

/-- Reads a state of type `σ` and gives what was met and the state afterwards. -/
structure Walk (σ ω : Type) where
  run : σ → List ω × σ

namespace Walk

variable {σ ω α : Type}

/-- Meets nothing and changes nothing. -/
def skip : Walk σ ω where
  run s := ([], s)

/-- Meets one thing, which may depend on the state. -/
def meet (f : σ → ω) : Walk σ ω where
  run s := ([f s], s)

/-- Meets a list of things that may depend on the state. -/
def meetAll (f : σ → List ω) : Walk σ ω where
  run s := (f s, s)

/-- Changes the state. -/
def change (f : σ → σ) : Walk σ ω where
  run s := ([], f s)

/-- One walk and then another. -/
def andThen (first second : Walk σ ω) : Walk σ ω where
  run s :=
    let (met, s') := first.run s
    let (more, s'') := second.run s'
    (met ++ more, s'')

/-- Several walks, one after the other. -/
def inOrder : List (Walk σ ω) → Walk σ ω
  | [] => skip
  | w :: ws => w.andThen (inOrder ws)

/-- The same walk over each element of a list. -/
def each (f : α → Walk σ ω) (items : List α) : Walk σ ω :=
  inOrder (items.map f)

/-- `inner` in the state that `enter` makes of the current one; `leave` then joins the state before
and the state after. -/
def within (enter : σ → σ) (leave : σ → σ → σ) (inner : Walk σ ω) : Walk σ ω where
  run s :=
    let (met, s') := inner.run (enter s)
    (met, leave s s')

@[simp] theorem skip_run (s : σ) : (skip : Walk σ ω).run s = ([], s) := rfl

@[simp] theorem meet_run (f : σ → ω) (s : σ) : (meet f).run s = ([f s], s) := rfl

@[simp] theorem meetAll_run (f : σ → List ω) (s : σ) : (meetAll f).run s = (f s, s) := rfl

@[simp] theorem change_run (f : σ → σ) (s : σ) :
    (change f : Walk σ ω).run s = ([], f s) := rfl

theorem andThen_run (first second : Walk σ ω) (s : σ) :
    (first.andThen second).run s =
      ((first.run s).1 ++ (second.run (first.run s).2).1, (second.run (first.run s).2).2) := rfl

end Walk
end CrossReference
