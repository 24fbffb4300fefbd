import CrossReference.Walk

/-!
# What a walk keeps

A walk keeps an invariant `I` of its states and meets only things with the property `E` when both
hold from every state with `I`. Keeping is closed under every way in which walks are put together,
so a walk over a tree keeps whatever its single steps keep.

Mapping what a walk meets also goes through every way in which walks are put together.
-/

namespace CrossReference
namespace Walk

variable {σ ω α : Type} {I : σ → Prop} {E : ω → Prop}

/-- From a state with `I` the walk ends in a state with `I`, and all that it meets satisfies `E`. -/
def Keeps (I : σ → Prop) (E : ω → Prop) (w : Walk σ ω) : Prop :=
  ∀ s, I s → I (w.run s).2 ∧ ∀ o ∈ (w.run s).1, E o

theorem keeps_skip : (skip : Walk σ ω).Keeps I E := by
  intro s hs
  exact ⟨hs, by simp⟩

theorem keeps_meet {f : σ → ω} (h : ∀ s, I s → E (f s)) : (meet f).Keeps I E := by
  intro s hs
  refine ⟨hs, ?_⟩
  simpa using h s hs

theorem keeps_change {f : σ → σ} (h : ∀ s, I s → I (f s)) : (change f : Walk σ ω).Keeps I E := by
  intro s hs
  exact ⟨h s hs, by simp⟩

theorem Keeps.andThen {first second : Walk σ ω} (hfirst : first.Keeps I E)
    (hsecond : second.Keeps I E) : (first.andThen second).Keeps I E := by
  intro s hs
  obtain ⟨hmid, hmet⟩ := hfirst s hs
  obtain ⟨hend, hmore⟩ := hsecond _ hmid
  refine ⟨hend, ?_⟩
  intro o ho
  rw [andThen_run, List.mem_append] at ho
  rcases ho with ho | ho
  · exact hmet o ho
  · exact hmore o ho

theorem keeps_inOrder {ws : List (Walk σ ω)} (h : ∀ w ∈ ws, w.Keeps I E) :
    (inOrder ws).Keeps I E := by
  induction ws with
  | nil => exact keeps_skip
  | cons w ws ih =>
      rw [List.forall_mem_cons] at h
      exact h.1.andThen (ih h.2)

theorem keeps_each {f : α → Walk σ ω} {items : List α} (h : ∀ x ∈ items, (f x).Keeps I E) :
    (each f items).Keeps I E := by
  apply keeps_inOrder
  intro w hw
  obtain ⟨x, hx, rfl⟩ := List.mem_map.1 hw
  exact h x hx

/-- `leave` may rely on the invariant both before and after the inner walk. -/
theorem Keeps.within {enter : σ → σ} {leave : σ → σ → σ} {inner : Walk σ ω}
    (hinner : inner.Keeps I E) (henter : ∀ s, I s → I (enter s))
    (hleave : ∀ s s', I s → I s' → I (leave s s')) : (within enter leave inner).Keeps I E := by
  intro s hs
  obtain ⟨hend, hmet⟩ := hinner _ (henter s hs)
  exact ⟨hleave s _ hs hend, hmet⟩

/-! ## Images of what is met -/

section Map

variable {ω' : Type} (f : ω → ω')

/-- A walk that meets the images of what `w` meets. -/
def map (w : Walk σ ω) : Walk σ ω' where
  run s := ((w.run s).1.map f, (w.run s).2)

@[simp] theorem map_skip : (skip : Walk σ ω).map f = skip := rfl

@[simp] theorem map_meet (g : σ → ω) : (meet g).map f = meet fun s => f (g s) := rfl

@[simp] theorem map_meetAll (g : σ → List ω) :
    (meetAll g).map f = meetAll fun s => (g s).map f := rfl

@[simp] theorem map_change (g : σ → σ) : (change g).map f = change g := rfl

@[simp] theorem map_andThen (first second : Walk σ ω) :
    (first.andThen second).map f = (first.map f).andThen (second.map f) := by
  simp only [map, andThen, List.map_append]

@[simp] theorem map_inOrder (ws : List (Walk σ ω)) :
    (inOrder ws).map f = inOrder (ws.map (map f)) := by
  induction ws with
  | nil => rfl
  | cons w ws ih =>
      rw [inOrder, map_andThen, ih]
      rfl

end Map

/-! ## Walks in a row -/

theorem andThen_assoc (w₁ w₂ w₃ : Walk σ ω) :
    (w₁.andThen w₂).andThen w₃ = w₁.andThen (w₂.andThen w₃) := by
  simp only [andThen, List.append_assoc]

theorem andThen_skip (w : Walk σ ω) : w.andThen skip = w := by
  simp only [andThen, skip_run, List.append_nil]

theorem skip_andThen (w : Walk σ ω) : skip.andThen w = w :=
  rfl

end Walk
end CrossReference
