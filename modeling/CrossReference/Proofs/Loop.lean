/-!
# Loops that end

A loop goes from state to state, one round after the other, until a round gives its result. Run for
a limited number of rounds it may have no result yet; so a run that has one tells that the loop
ends.

* `Loop.run` is the loop with a limited number of rounds.
* `Loop.run_eq_some` says that it has a result after enough rounds if each round makes a measure
  smaller, and that the result is what the rounds leave as it is.
-/

namespace CrossReference

/-- What a round of a loop comes to. -/
inductive Round (σ β : Type) where
  /-- The loop goes on from another state. -/
  | next (state : σ)
  /-- The loop ends. -/
  | done (result : β)

namespace Loop

variable {σ β : Type} {round : σ → Round σ β}

/-- The result of a loop that starts with `state`, if it ends within the given number of rounds. -/
def run (round : σ → Round σ β) : Nat → σ → Option β
  | 0, _ => none
  | rounds + 1, state =>
    match round state with
    | .next state' => run round rounds state'
    | .done result => some result

theorem run_of_next {state state' : σ} (h : round state = .next state') (rounds : Nat) :
    run round (rounds + 1) state = run round rounds state' := by
  simp only [run, h]

theorem run_of_done {state : σ} {result : β} (h : round state = .done result) (rounds : Nat) :
    run round (rounds + 1) state = some result := by
  simp only [run, h]

/-- A loop ends with `value state` if each round that goes on makes the measure smaller and keeps
the value, and each round that ends gives it. -/
theorem run_eq_some (measure : σ → Nat) (value : σ → β)
    (hnext : ∀ s s', round s = .next s' → measure s' < measure s ∧ value s' = value s)
    (hdone : ∀ s r, round s = .done r → r = value s) {rounds : Nat} {state : σ}
    (h : measure state < rounds) : run round rounds state = some (value state) := by
  induction rounds generalizing state with
  | zero => exact absurd h (Nat.not_lt_zero _)
  | succ rounds ih =>
      cases hround : round state with
      | next state' =>
          obtain ⟨hless, hvalue⟩ := hnext state state' hround
          rw [run_of_next hround, ih (by omega), hvalue]
      | done result => rw [run_of_done hround, hdone state result hround]

end Loop
end CrossReference
