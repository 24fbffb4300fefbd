import CrossReference.Catalog.Basic

/-!
# Changes of a catalog

The changes that can be made to a catalog, one after the other, and the induction over them. What
linking leaves alone is said here once.
-/

namespace CrossReference
namespace Catalog

/-- A change of a catalog. -/
inductive Change where
  | declare (s : Symbol)
  | relate (child parent : String) (relation : Relation)
  | removeFile (file : FileId)
  | setClauses (file : FileId) (clauses : List Clause)
  | link
  | setAncestorLimit (limit : Nat)

/-- The catalog after a change. -/
def apply (c : Catalog) : Change → Catalog
  | .declare s => c.declare s
  | .relate child parent relation => (c.relate child parent relation).2
  | .removeFile file => c.removeFile file
  | .setClauses file clauses => c.setClauses file clauses
  | .link => c.link
  | .setAncestorLimit limit => c.setAncestorLimit limit

/-- The catalog that a sequence of changes makes of the empty one. -/
def after (changes : List Change) : Catalog :=
  changes.foldl apply ∅

/-- What holds of the empty catalog and survives each change holds after all changes. -/
theorem after_induction {P : Catalog → Prop} (hstart : P ∅)
    (hstep : ∀ c change, P c → P (c.apply change)) (changes : List Change) : P (after changes) := by
  unfold after
  generalize (∅ : Catalog) = c at hstart
  induction changes generalizing c with
  | nil => exact hstart
  | cons change rest ih => exact ih _ (hstep c change hstart)

/-- Linking a clause leaves the graph as it is, or inserts one edge. -/
theorem linkClause_graph (c : Catalog) (file : FileId) (clause : Clause) :
    (c.linkClause file clause).graph = c.graph ∨ ∃ parent, (c.linkClause file clause).graph =
      (c.graph.insert clause.child parent clause.relation (some file)).2 := by
  unfold linkClause
  split
  · exact .inl rfl
  · rename_i parent _
    refine .inr ⟨parent, ?_⟩
    split
    · rename_i hinsert
      rw [hinsert]
    · rename_i hinsert
      rw [hinsert]

theorem symbols_linkClause (c : Catalog) (file : FileId) (clause : Clause) :
    (c.linkClause file clause).symbols = c.symbols ∧
      (c.linkClause file clause).declaredBy = c.declaredBy := by
  unfold linkClause
  split
  · exact ⟨rfl, rfl⟩
  · split
    · exact ⟨rfl, rfl⟩
    · exact ⟨rfl, rfl⟩

/-- Linking declares nothing and removes nothing. -/
theorem symbols_link (c : Catalog) :
    c.link.symbols = c.symbols ∧ c.link.declaredBy = c.declaredBy := by
  unfold link
  split
  · have hstart : c.unlinked.symbols = c.symbols ∧ c.unlinked.declaredBy = c.declaredBy :=
      ⟨rfl, rfl⟩
    generalize c.unlinked = c' at hstart
    generalize c.allClauses = work
    induction work generalizing c' with
    | nil => exact hstart
    | cons next rest ih =>
        obtain ⟨hsymbols, howners⟩ := symbols_linkClause c' next.1 next.2
        exact ih _ ⟨hsymbols.trans hstart.1, howners.trans hstart.2⟩
  · exact ⟨rfl, rfl⟩

theorem clauses_linkClause (c : Catalog) (file : FileId) (clause : Clause) :
    (c.linkClause file clause).clauses = c.clauses := by
  unfold linkClause
  split
  · rfl
  · split
    · rfl
    · rfl

/-- Linking keeps the clauses as they are written. -/
theorem clauses_link (c : Catalog) : c.link.clauses = c.clauses := by
  unfold link
  split
  · have hstart : c.unlinked.clauses = c.clauses := rfl
    generalize c.unlinked = c' at hstart
    generalize c.allClauses = work
    induction work generalizing c' with
    | nil => exact hstart
    | cons next rest ih => exact ih _ ((clauses_linkClause c' next.1 next.2).trans hstart)
  · rfl

/-- An edge given directly is inserted into the graph, and nothing else changes. -/
theorem apply_relate (c : Catalog) (child parent : String) (relation : Relation) :
    c.apply (.relate child parent relation) =
      { c with graph := (c.graph.insert child parent relation none).2 } := rfl

theorem symbols_apply_relate (c : Catalog) (child parent : String) (relation : Relation) :
    (c.apply (.relate child parent relation)).symbols = c.symbols ∧
      (c.apply (.relate child parent relation)).declaredBy = c.declaredBy := by
  rw [apply_relate]
  exact ⟨rfl, rfl⟩

end Catalog
end CrossReference
