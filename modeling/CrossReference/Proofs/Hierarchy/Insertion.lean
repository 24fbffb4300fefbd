import CrossReference.Proofs.Hierarchy.Paths
import CrossReference.Proofs.Name

/-!
# Inserting an edge

An insertion is refused if the edge leads from a type to itself or closes a cycle, and for no other
reason: not because it is there already, nor because its names are spelled in another way. One that
is refused leaves the graph as it is.

* `Graph.Indexed.insert_cases` says what an insertion comes to. `Graph.Indexed.insert_eq_error_iff`
  says when it fails, and `Graph.Indexed.insert_of_error` that it leaves the graph as it is then.
* `Graph.Indexed.extend_cases` says what an insertion that succeeds has added.
-/

namespace CrossReference

/-- The edge that leads from `child` to `parent`, without leading separators. -/
def Edge.between (child parent : String) (relation : Relation) (origin : Option FileId) : Edge where
  child := Name.relative child
  parent := Name.relative parent
  relation := relation
  origin := origin

/-- Whether `e'` ties a type to its parent in the same way as `e`. -/
def Edge.repeats (e e' : Edge) : Bool :=
  e'.relation = e.relation && Name.same e'.parent e.parent

theorem Edge.repeats_iff {e e' : Edge} :
    e.repeats e' = true ↔ e'.relation = e.relation ∧ Name.key e'.parent = Name.key e.parent := by
  simp [repeats, Name.same_iff]

/-- What makes two edges the same edge. -/
def Edge.identity (e : Edge) : String × Relation × String :=
  (Name.key e.child, e.relation, Name.key e.parent)

/-- The identity of the edges that lead from `child` to `parent`. -/
def Edge.identityOf (child parent : String) (relation : Relation) : String × Relation × String :=
  (Name.key child, relation, Name.key parent)

theorem Edge.identity_between (child parent : String) (relation : Relation)
    (origin : Option FileId) :
    (Edge.between child parent relation origin).identity = identityOf child parent relation := by
  simp [identity, between, identityOf]

namespace Graph

/-- Adds an edge unless it is there already. -/
def extend (g : Graph) (e : Edge) : Graph :=
  if (g.edgesFrom (Name.key e.child)).any e.repeats then g else g.push e

/-- What an insertion comes to: the edge leads from a type to itself, or there is a way back from
the parent to the child, or else the edge is added. -/
theorem Indexed.insert_cases {g : Graph} (hg : g.Indexed) (child parent : String)
    (relation : Relation) (origin : Option FileId) :
    (Name.key child = Name.key parent ∧ g.insert child parent relation origin =
        (.error (.selfReference (Name.relative child) relation), g)) ∨
      (Name.key child ≠ Name.key parent ∧
        Relation.ReflTransGen g.Leads (Name.key parent) (Name.key child) ∧
        g.insert child parent relation origin =
          (.error (.cycle (Name.relative child) (Name.relative parent) relation), g)) ∨
      (¬ Relation.ReflTransGen g.Leads (Name.key parent) (Name.key child) ∧
        g.insert child parent relation origin =
          (.ok (), g.extend (.between child parent relation origin))) := by
  have hself : Name.same (Name.relative child) (Name.relative parent) = true ↔
      Name.key child = Name.key parent := by
    rw [Name.same_iff, Name.key_relative, Name.key_relative]
  have hreach : g.reaches (Name.relative parent) (Name.relative child) = true ↔
      Relation.ReflTransGen g.Leads (Name.key parent) (Name.key child) := by
    rw [hg.reaches_iff, Name.key_relative, Name.key_relative]
  unfold insert
  simp only
  by_cases hsame : Name.key child = Name.key parent
  · exact .inl ⟨hsame, if_pos (hself.2 hsame)⟩
  rw [if_neg (fun h => hsame (hself.1 h))]
  by_cases hback : Relation.ReflTransGen g.Leads (Name.key parent) (Name.key child)
  · exact .inr (.inl ⟨hsame, hback, if_pos (hreach.2 hback)⟩)
  · rw [if_neg (fun h => hback (hreach.1 h)), ← apply_ite (Prod.mk (Except.ok ()))]
    exact .inr (.inr ⟨hback, rfl⟩)

/-- An insertion fails if the edge leads from a type to itself, or else if there is a way back from
the parent to the child. -/
theorem Indexed.insert_eq_error_iff {g : Graph} (hg : g.Indexed) {child parent : String}
    {relation : Relation} {origin : Option FileId} {reason : EdgeError} :
    (g.insert child parent relation origin).1 = .error reason ↔
      (Name.key child = Name.key parent ∧
        reason = .selfReference (Name.relative child) relation) ∨
      (Name.key child ≠ Name.key parent ∧
        Relation.ReflTransGen g.Leads (Name.key parent) (Name.key child) ∧
        reason = .cycle (Name.relative child) (Name.relative parent) relation) := by
  rcases hg.insert_cases child parent relation origin with
    ⟨hself, hresult⟩ | ⟨hself, hback, hresult⟩ | ⟨hback, hresult⟩
  · simp [hresult, hself, eq_comm]
  · simp [hresult, hself, hback, eq_comm]
  · have hself : Name.key child ≠ Name.key parent := by
      intro hself
      simp only [hself, Relation.ReflTransGen.refl, not_true_eq_false] at hback
    simp [hresult, hself, hback]

/-- An insertion that fails leaves the graph as it is. -/
theorem Indexed.insert_of_error {g : Graph} (hg : g.Indexed) {child parent : String}
    {relation : Relation} {origin : Option FileId} {reason : EdgeError}
    (h : (g.insert child parent relation origin).1 = .error reason) :
    (g.insert child parent relation origin).2 = g := by
  rcases hg.insert_cases child parent relation origin with
    ⟨_, hresult⟩ | ⟨_, _, hresult⟩ | ⟨_, hresult⟩
  · rw [hresult]
  · rw [hresult]
  · rw [hresult] at h
    exact absurd h (by simp)

/-- An edge is added unless there is one with its identity. -/
theorem Indexed.extend_cases {g : Graph} (hg : g.Indexed) (e : Edge) :
    (∃ e' ∈ g.edges, e'.identity = e.identity) ∧ g.extend e = g ∨
      (∀ e' ∈ g.edges, e'.identity ≠ e.identity) ∧ g.extend e = g.push e := by
  have hthere : (g.edgesFrom (Name.key e.child)).any e.repeats = true ↔
      ∃ e' ∈ g.edges, e'.identity = e.identity := by
    unfold Edge.identity
    simp only [List.any_eq_true, hg.mem_edgesFrom_iff, Edge.repeats_iff, Prod.mk.injEq, and_assoc]
  unfold extend
  by_cases h : ∃ e' ∈ g.edges, e'.identity = e.identity
  · exact .inl ⟨h, if_pos (hthere.2 h)⟩
  · refine .inr ⟨?_, if_neg (fun hany => h (hthere.1 hany))⟩
    intro e' he' hidentity
    exact h ⟨e', he', hidentity⟩

end Graph
end CrossReference
