import CrossReference.Proofs.Loop
import CrossReference.Tree.Word

/-!
# The names in a type

A type as written is a tree: a nullable type, a union and an intersection have parts, and a name has
none. The names are read with a stack of the types that are still to visit. What comes out are the
names of the tree from left to right, each one as often as it is written.

* `TypeHint.flatten` reads the names by recursion over the tree, and `TypeHint.namesOn_eq` says that
  the stack stands for what is left of this recursion.
* `TypeHint.run_namesRound` says that the loop over the stack ends, and after how many rounds.
* `TypeHint.leaves` lists the names with their places in the tree. `TypeHint.mem_leaves_iff` and
  `TypeHint.pairwise_leaves` say that it has all of them, each once and in order.
* `TypeHint.names_in_source_order` puts them together.
-/

namespace CrossReference
namespace Tree
namespace TypeHint

/-! ## The recursion -/

mutual

/-- The names in a type: its own, or those in its parts from left to right. -/
def flatten : TypeHint → List Word
  | named name => [name]
  | nullable inner => inner.flatten
  | union parts => flattenAll parts
  | intersection parts => flattenAll parts

/-- The names in the types of a list, one type after the other. -/
def flattenAll : List TypeHint → List Word
  | [] => []
  | hint :: hints => hint.flatten ++ flattenAll hints

end

theorem flattenAll_append (hints more : List TypeHint) :
    flattenAll (hints ++ more) = flattenAll hints ++ flattenAll more := by
  induction hints with
  | nil => rfl
  | cons hint hints ih => rw [List.cons_append, flattenAll, flattenAll, ih, List.append_assoc]

/-- What is on the stack is what is left of the recursion. -/
theorem namesOn_eq (stack : List TypeHint) : namesOn stack = flattenAll stack := by
  fun_induction namesOn stack with
  | case1 => rfl
  | case2 name rest ih => rw [ih, flattenAll, flatten, List.singleton_append]
  | case3 inner rest ih => rw [ih, flattenAll, flattenAll, flatten]
  | case4 parts rest ih => rw [ih, pushAll_eq, flattenAll_append, flattenAll, flatten]
  | case5 parts rest ih => rw [ih, pushAll_eq, flattenAll_append, flattenAll, flatten]

theorem names_eq_flatten (hint : TypeHint) : hint.names = hint.flatten := by
  rw [names, namesOn_eq, flattenAll, flattenAll, List.append_nil]

/-! ## The loop ends -/

/-- Where the reading of a type is: the names that were found, and the stack. -/
structure NamesState where
  found : List Word := []
  stack : List TypeHint

/-- One round takes a type off the stack. -/
def namesRound (s : NamesState) : Round NamesState (List Word) :=
  match s.stack with
  | [] => .done s.found
  | named name :: rest => .next { found := s.found ++ [name], stack := rest }
  | nullable inner :: rest => .next { s with stack := inner :: rest }
  | union parts :: rest => .next { s with stack := pushAll rest parts }
  | intersection parts :: rest => .next { s with stack := pushAll rest parts }

/-- Each type is taken off the stack once, and the names are neither lost nor moved. -/
theorem next_namesRound {s s' : NamesState} (h : namesRound s = .next s') :
    sizeOfAll s'.stack < sizeOfAll s.stack ∧
      s'.found ++ namesOn s'.stack = s.found ++ namesOn s.stack := by
  obtain ⟨found, stack⟩ := s
  cases stack with
  | nil => exact absurd h (by simp [namesRound])
  | cons hint rest =>
      cases hint with
      | named name =>
          obtain rfl : NamesState.mk (found ++ [name]) rest = s' := by simpa [namesRound] using h
          refine ⟨by simp [sizeOfAll, size], ?_⟩
          rw [namesOn, List.append_assoc, List.singleton_append]
      | nullable inner =>
          obtain rfl : NamesState.mk found (inner :: rest) = s' := by simpa [namesRound] using h
          refine ⟨by simp [sizeOfAll, size], ?_⟩
          rw [namesOn]
      | union parts =>
          obtain rfl : NamesState.mk found (pushAll rest parts) = s' := by
            simpa [namesRound] using h
          refine ⟨?_, by rw [namesOn]⟩
          rw [pushAll_eq, sizeOfAll_append, sizeOfAll, size]
          omega
      | intersection parts =>
          obtain rfl : NamesState.mk found (pushAll rest parts) = s' := by
            simpa [namesRound] using h
          refine ⟨?_, by rw [namesOn]⟩
          rw [pushAll_eq, sizeOfAll_append, sizeOfAll, size]
          omega

theorem done_namesRound {s : NamesState} {names : List Word} (h : namesRound s = .done names) :
    names = s.found ++ namesOn s.stack := by
  obtain ⟨found, stack⟩ := s
  cases stack with
  | nil =>
      obtain rfl : found = names := by simpa [namesRound] using h
      rw [namesOn, List.append_nil]
  | cons hint rest => cases hint <;> exact absurd h (by simp [namesRound])

/-- The loop over the stack ends: it takes a round for each type that the type is made of, and one
to find the stack empty. -/
theorem run_namesRound (hint : TypeHint) :
    Loop.run namesRound (hint.size + 1) { stack := [hint] } = some hint.names :=
  Loop.run_eq_some (fun s : NamesState => sizeOfAll s.stack) (fun s => s.found ++ namesOn s.stack)
    (fun _ _ => next_namesRound) (fun _ _ => done_namesRound) (by simp [sizeOfAll])

/-! ## Where the names stand -/

/-- The parts of a type. -/
def parts : TypeHint → List TypeHint
  | named _ => []
  | nullable inner => [inner]
  | union parts => parts
  | intersection parts => parts

/-- The type at a place inside a type. A place is a way down: which part to go on to, and so on. -/
def part? : TypeHint → List Nat → Option TypeHint
  | hint, [] => some hint
  | hint, i :: place => hint.parts[i]?.bind fun part => part.part? place

mutual

/-- The names in a type with their places. -/
def leaves : TypeHint → List (List Nat × Word)
  | named name => [([], name)]
  | nullable inner => inner.leaves.map fun (place, name) => (0 :: place, name)
  | union parts => leavesFrom 0 parts
  | intersection parts => leavesFrom 0 parts

/-- The names in parts that are counted from `i` on, with their places. -/
def leavesFrom (i : Nat) : List TypeHint → List (List Nat × Word)
  | [] => []
  | hint :: hints =>
    hint.leaves.map (fun (place, name) => (i :: place, name)) ++ leavesFrom (i + 1) hints

end

mutual

theorem map_snd_leaves : (hint : TypeHint) → hint.leaves.map Prod.snd = hint.flatten
  | named name => rfl
  | nullable inner => by
      rw [leaves, List.map_map, flatten, ← map_snd_leaves inner]
      rfl
  | union parts => by rw [leaves, flatten, map_snd_leavesFrom parts]
  | intersection parts => by rw [leaves, flatten, map_snd_leavesFrom parts]

theorem map_snd_leavesFrom : (hints : List TypeHint) → (i : Nat) →
    (leavesFrom i hints).map Prod.snd = flattenAll hints
  | [], _ => rfl
  | hint :: hints, i => by
      rw [leavesFrom, List.map_append, List.map_map, flattenAll, ← map_snd_leaves hint,
        map_snd_leavesFrom hints]
      rfl

end

theorem mem_map_cons_iff {leaves : List (List Nat × Word)} {i : Nat} {place : List Nat}
    {name : Word} :
    (place, name) ∈ leaves.map (fun (place, name) => (i :: place, name)) ↔
      ∃ rest, place = i :: rest ∧ (rest, name) ∈ leaves := by
  rw [List.mem_map]
  constructor
  · rintro ⟨⟨rest, word⟩, hmem, heq⟩
    obtain ⟨rfl, rfl⟩ := Prod.mk.inj heq
    exact ⟨rest, rfl, hmem⟩
  · rintro ⟨rest, rfl, hmem⟩
    exact ⟨(rest, name), hmem, rfl⟩

mutual

/-- The names with their places are all that are in the tree. -/
theorem mem_leaves_iff : (hint : TypeHint) → (place : List Nat) → (name : Word) →
    ((place, name) ∈ hint.leaves ↔ hint.part? place = some (named name))
  | named word, [], name => by simp [leaves, part?, eq_comm]
  | named word, i :: place, name => by simp [leaves, part?, parts]
  | nullable inner, place, name => by
      rw [leaves, mem_map_cons_iff]
      cases place with
      | nil => simp [part?]
      | cons i place =>
          cases i with
          | zero => simp [part?, parts, mem_leaves_iff inner]
          | succ i => simp [part?, parts]
  | union parts, [], name => by
      rw [leaves, mem_leavesFrom_iff parts]
      simp [part?]
  | union parts, i :: place, name => by
      rw [leaves, mem_leavesFrom_iff parts]
      simp [part?, TypeHint.parts, and_assoc]
  | intersection parts, [], name => by
      rw [leaves, mem_leavesFrom_iff parts]
      simp [part?]
  | intersection parts, i :: place, name => by
      rw [leaves, mem_leavesFrom_iff parts]
      simp [part?, TypeHint.parts, and_assoc]

theorem mem_leavesFrom_iff : (hints : List TypeHint) → (i : Nat) → (place : List Nat) →
    (name : Word) → ((place, name) ∈ leavesFrom i hints ↔
      ∃ j rest, place = (i + j) :: rest ∧
        (hints[j]?.bind fun part => part.part? rest) = some (named name))
  | [], i, place, name => by simp [leavesFrom]
  | hint :: hints, i, place, name => by
      rw [leavesFrom, List.mem_append, mem_map_cons_iff, mem_leavesFrom_iff hints]
      constructor
      · rintro (⟨rest, rfl, hmem⟩ | ⟨j, rest, rfl, hpart⟩)
        · exact ⟨0, rest, rfl, (mem_leaves_iff hint rest name).1 hmem⟩
        · exact ⟨j + 1, rest, by rw [Nat.add_right_comm, Nat.add_assoc], hpart⟩
      · rintro ⟨j, rest, rfl, hpart⟩
        cases j with
        | zero => exact .inl ⟨rest, rfl, (mem_leaves_iff hint rest name).2 hpart⟩
        | succ j => exact .inr ⟨j, rest, by rw [Nat.add_right_comm, Nat.add_assoc], hpart⟩

end

mutual

/-- The names come in the order of their places, so that none comes twice. -/
theorem pairwise_leaves : (hint : TypeHint) → hint.leaves.Pairwise fun a b => a.1 < b.1
  | named name => List.pairwise_singleton _ _
  | nullable inner => by
      rw [leaves, List.pairwise_map]
      exact (pairwise_leaves inner).imp fun h => List.cons_lt_cons_iff.2 (.inr ⟨rfl, h⟩)
  | union parts => pairwise_leavesFrom parts 0
  | intersection parts => pairwise_leavesFrom parts 0

theorem pairwise_leavesFrom : (hints : List TypeHint) → (i : Nat) →
    (leavesFrom i hints).Pairwise fun a b => a.1 < b.1
  | [], _ => List.Pairwise.nil
  | hint :: hints, i => by
      rw [leavesFrom, List.pairwise_append, List.pairwise_map]
      refine ⟨?_, pairwise_leavesFrom hints (i + 1), ?_⟩
      · exact (pairwise_leaves hint).imp fun h => List.cons_lt_cons_iff.2 (.inr ⟨rfl, h⟩)
      · -- Every place in a later part goes on to a part with a greater number.
        rintro ⟨place, name⟩ hfirst ⟨place', name'⟩ hlater
        obtain ⟨rest, rfl, _⟩ := mem_map_cons_iff.1 hfirst
        obtain ⟨j, rest', rfl, _⟩ := (mem_leavesFrom_iff hints (i + 1) place' name').1 hlater
        exact List.cons_lt_cons_iff.2 (.inl (by omega))

end

/-- The loop that reads the names in a type ends, and its result is what the recursion over the type
gives. It has a name for each place of the tree where a name stands, in the order of the places, and
no other. -/
theorem names_in_source_order (hint : TypeHint) :
    Loop.run namesRound (hint.size + 1) { stack := [hint] } = some hint.names ∧
      hint.names = hint.flatten ∧
      ∃ leaves : List (List Nat × Word),
        hint.names = leaves.map Prod.snd ∧
        (leaves.Pairwise fun a b => a.1 < b.1) ∧
        ∀ place name, (place, name) ∈ leaves ↔ hint.part? place = some (named name) := by
  refine ⟨hint.run_namesRound, hint.names_eq_flatten, hint.leaves, ?_, hint.pairwise_leaves,
    hint.mem_leaves_iff⟩
  rw [names_eq_flatten, map_snd_leaves]

end TypeHint
end Tree
end CrossReference
