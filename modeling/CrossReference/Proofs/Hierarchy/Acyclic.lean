import CrossReference.Proofs.Catalog.Changes
import CrossReference.Proofs.Hierarchy.Insertion

/-!
# The inheritance graph is acyclic

The graph of a catalog is built by single insertions, by linking the clauses of the files, and by
throwing away the edges of files before they are linked again. Every such change keeps the graph
well formed: no type reaches itself, the index by child is exact, and no edge is there twice.

* `Graph.WellFormed` is the invariant.
* `Graph.WellFormed.insert` is its step lemma, and `Catalog.wellFormed_apply` lifts it to a change
  of the catalog.
* `Catalog.graph_acyclic_and_indexed` is the result for every sequence of changes.
-/

namespace CrossReference

namespace Graph

/-- No type reaches itself by edges, the index is exact, and no edge is there twice. -/
structure WellFormed (g : Graph) : Prop where
  acyclic : ∀ k, ¬ Relation.TransGen g.Leads k k
  indexed : g.Indexed
  distinct : (g.edges.toList.map Edge.identity).Nodup

theorem wellFormed_empty : (∅ : Graph).WellFormed where
  acyclic := by
    intro k hpath
    obtain ⟨b, ⟨e, he, _⟩, _⟩ := Relation.TransGen.head'_iff.1 hpath
    exact absurd he (Array.not_mem_empty e)
  indexed :=
    { mem_places_iff := by
        intro k i
        constructor
        · intro hi
          exact absurd hi List.not_mem_nil
        · rintro ⟨e, he, _⟩
          simp [show (∅ : Graph).edges = #[] from rfl] at he
      places_sorted := fun k => List.Pairwise.nil }
  distinct := List.nodup_nil

/-! ## Adding one edge -/

theorem places_push_self (g : Graph) (e : Edge) :
    (g.push e).places (Name.key e.child) = g.places (Name.key e.child) ++ [g.edges.size] := by
  simp [places, push]

theorem places_push_of_ne (g : Graph) (e : Edge) {k : String} (hk : k ≠ Name.key e.child) :
    (g.push e).places k = g.places k := by
  unfold places push
  rw [OrderedMap.find?_insert_of_ne _ _ hk]

theorem getElem?_push (g : Graph) (e : Edge) (i : Nat) :
    (g.push e).edges[i]? = if i = g.edges.size then some e else g.edges[i]? :=
  Array.getElem?_push

theorem leads_push_iff (g : Graph) (e : Edge) (a b : String) :
    (g.push e).Leads a b ↔ g.Leads a b ∨ Name.key e.child = a ∧ Name.key e.parent = b := by
  unfold Leads
  constructor
  · rintro ⟨e', he', ha, hb⟩
    rcases Array.mem_push.1 he' with hold | rfl
    · exact .inl ⟨e', hold, ha, hb⟩
    · exact .inr ⟨ha, hb⟩
  · rintro (⟨e', he', ha, hb⟩ | ⟨ha, hb⟩)
    · exact ⟨e', Array.mem_push.2 (.inl he'), ha, hb⟩
    · exact ⟨e, Array.mem_push.2 (.inr rfl), ha, hb⟩

theorem Indexed.push {g : Graph} (hg : g.Indexed) (e : Edge) : (g.push e).Indexed where
  mem_places_iff := by
    intro k i
    -- The new edge has a place of its own, after all that the index knows.
    have hlt : ∀ e', g.edges[i]? = some e' → i ≠ g.edges.size := by
      intro e' he'
      obtain ⟨hi, _⟩ := Array.getElem?_eq_some_iff.1 he'
      omega
    rw [getElem?_push]
    by_cases hk : k = Name.key e.child
    · subst hk
      rw [places_push_self, List.mem_append, List.mem_singleton, hg.mem_places_iff]
      constructor
      · rintro (⟨e', he', hc⟩ | rfl)
        · exact ⟨e', by rw [if_neg (hlt e' he'), he'], hc⟩
        · exact ⟨e, if_pos rfl, rfl⟩
      · rintro ⟨e', he', hc⟩
        by_cases hi : i = g.edges.size
        · exact .inr hi
        · rw [if_neg hi] at he'
          exact .inl ⟨e', he', hc⟩
    · rw [places_push_of_ne g e hk, hg.mem_places_iff]
      constructor
      · rintro ⟨e', he', hc⟩
        exact ⟨e', by rw [if_neg (hlt e' he'), he'], hc⟩
      · rintro ⟨e', he', hc⟩
        by_cases hi : i = g.edges.size
        · rw [if_pos hi] at he'
          have hee : e = e' := Option.some.inj he'
          exact absurd (hee ▸ hc.symm) hk
        · rw [if_neg hi] at he'
          exact ⟨e', he', hc⟩
  places_sorted := by
    intro k
    by_cases hk : k = Name.key e.child
    · subst hk
      rw [places_push_self, List.pairwise_append]
      refine ⟨hg.places_sorted _, List.pairwise_singleton _ _, ?_⟩
      intro i hi j hj
      rw [List.mem_singleton] at hj
      obtain ⟨e', he', _⟩ := (hg.mem_places_iff _ i).1 hi
      obtain ⟨hlt, _⟩ := Array.getElem?_eq_some_iff.1 he'
      omega
    · rw [places_push_of_ne g e hk]
      exact hg.places_sorted k

/-- A path in the graph with one more edge either does without it, or leads to its child and goes on
from its parent. -/
theorem transGen_leads_push {g : Graph} {e : Edge} {a b : String}
    (h : Relation.TransGen (g.push e).Leads a b) :
    Relation.TransGen g.Leads a b ∨
      Relation.ReflTransGen g.Leads a (Name.key e.child) ∧
        Relation.ReflTransGen g.Leads (Name.key e.parent) b := by
  induction h with
  | single hlead =>
      rcases (leads_push_iff g e _ _).1 hlead with hold | ⟨rfl, rfl⟩
      · exact .inl (.single hold)
      · exact .inr ⟨.refl, .refl⟩
  | tail _ hlead ih =>
      rcases (leads_push_iff g e _ _).1 hlead with hold | ⟨rfl, rfl⟩
      · rcases ih with hpath | ⟨hchild, hparent⟩
        · exact .inl (.tail hpath hold)
        · exact .inr ⟨hchild, hparent.tail hold⟩
      · -- Only the last use of the new edge counts for where the path goes on.
        rcases ih with hpath | ⟨hchild, _⟩
        · exact .inr ⟨hpath.to_reflTransGen, .refl⟩
        · exact .inr ⟨hchild, .refl⟩

/-- An edge closes no cycle if there is no way back from its parent to its child. -/
theorem acyclic_push {g : Graph} {e : Edge} (hg : ∀ k, ¬ Relation.TransGen g.Leads k k)
    (hback : ¬ Relation.ReflTransGen g.Leads (Name.key e.parent) (Name.key e.child)) :
    ∀ k, ¬ Relation.TransGen (g.push e).Leads k k := by
  intro k hcycle
  rcases transGen_leads_push hcycle with hold | ⟨hchild, hparent⟩
  · exact hg k hold
  · exact hback (hparent.trans hchild)

theorem WellFormed.extend {g : Graph} (hg : g.WellFormed) {child parent : String}
    (hback : ¬ Relation.ReflTransGen g.Leads (Name.key parent) (Name.key child))
    (relation : Relation) (origin : Option FileId) :
    (g.extend (.between child parent relation origin)).WellFormed := by
  rcases hg.indexed.extend_cases (.between child parent relation origin) with
    ⟨_, hsame⟩ | ⟨hnew, hpush⟩
  · rw [hsame]
    exact hg
  · rw [hpush]
    refine ⟨acyclic_push hg.acyclic (by simpa [Edge.between] using hback), hg.indexed.push _, ?_⟩
    rw [show (g.push _).edges = g.edges.push _ from rfl, Array.toList_push, List.map_append,
      List.nodup_append]
    refine ⟨hg.distinct, by simp, ?_⟩
    -- No edge that is there has the identity of the new one.
    intro x hx y hy hxy
    obtain ⟨e, he, rfl⟩ := List.mem_map.1 hx
    rw [List.map_singleton, List.mem_singleton] at hy
    exact hnew e (Array.mem_toList_iff.1 he) (hxy.trans hy)

theorem WellFormed.insert {g : Graph} (hg : g.WellFormed) (child parent : String)
    (relation : Relation) (origin : Option FileId) :
    (g.insert child parent relation origin).2.WellFormed := by
  rcases hg.indexed.insert_cases child parent relation origin with
    ⟨_, hresult⟩ | ⟨_, _, hresult⟩ | ⟨hback, hresult⟩
  · rw [hresult]
    exact hg
  · rw [hresult]
    exact hg
  · rw [hresult]
    exact hg.extend hback relation origin

/-! ## Taking edges as they are -/

theorem toList_edges_foldl_push (g : Graph) (edges : List Edge) :
    (edges.foldl push g).edges.toList = g.edges.toList ++ edges := by
  induction edges generalizing g with
  | nil => simp
  | cons e rest ih =>
      rw [List.foldl_cons, ih, show (g.push e).edges = g.edges.push e from rfl]
      simp

theorem Indexed.foldl_push {g : Graph} (hg : g.Indexed) (edges : List Edge) :
    (edges.foldl Graph.push g).Indexed := by
  induction edges generalizing g with
  | nil => exact hg
  | cons e rest ih => exact ih (hg.push e)

@[simp] theorem toList_edges_ofEdges (edges : List Edge) :
    (ofEdges edges).edges.toList = edges := by
  unfold ofEdges
  rw [toList_edges_foldl_push]
  rfl

/-- Some of the edges of a well formed graph make up a well formed graph. -/
theorem WellFormed.ofEdges {g : Graph} (hg : g.WellFormed) {edges : List Edge}
    (hsub : edges.Sublist g.edges.toList) : (ofEdges edges).WellFormed where
  acyclic := by
    intro k hcycle
    refine hg.acyclic k (Relation.TransGen.mono ?_ k k hcycle)
    rintro a b ⟨e, he, ha, hb⟩
    rw [← Array.mem_toList_iff, toList_edges_ofEdges] at he
    exact ⟨e, Array.mem_toList_iff.1 (hsub.subset he), ha, hb⟩
  indexed := wellFormed_empty.indexed.foldl_push edges
  distinct := by
    rw [toList_edges_ofEdges]
    exact hg.distinct.sublist (hsub.map _)

end Graph

namespace Catalog

theorem wellFormed_linkClause {c : Catalog} (hc : c.graph.WellFormed) (file : FileId)
    (clause : Clause) : (c.linkClause file clause).graph.WellFormed := by
  rcases linkClause_graph c file clause with hgraph | ⟨parent, hgraph⟩
  · rw [hgraph]
    exact hc
  · rw [hgraph]
    exact hc.insert _ _ _ _

theorem wellFormed_link {c : Catalog} (hc : c.graph.WellFormed) : c.link.graph.WellFormed := by
  unfold link
  split
  · have hstart : c.unlinked.graph.WellFormed := hc.ofEdges List.filter_sublist
    generalize c.allClauses = work
    generalize c.unlinked = c' at hstart
    induction work generalizing c' with
    | nil => exact hstart
    | cons next rest ih => exact ih _ (wellFormed_linkClause hstart next.1 next.2)
  · exact hc

/-- What one change preserves. -/
theorem wellFormed_apply {c : Catalog} (hc : c.graph.WellFormed) (change : Change) :
    (c.apply change).graph.WellFormed := by
  cases change with
  | relate child parent relation =>
      rw [apply_relate]
      exact hc.insert child parent relation none
  | link => exact wellFormed_link hc
  | declare s => exact hc
  | removeFile file => exact hc
  | setClauses file clauses => exact hc
  | setAncestorLimit limit => exact hc

theorem wellFormed_after (changes : List Change) : (after changes).graph.WellFormed :=
  after_induction (P := fun c => c.graph.WellFormed) Graph.wellFormed_empty
    (fun _ change hc => wellFormed_apply hc change) changes

/-- After any changes no path of edges leads from a type back to it, the index lists for each key
exactly the places of the edges of that child, in increasing order, and no two edges agree in child,
relation and parent. -/
theorem graph_acyclic_and_indexed (changes : List Change) :
    (∀ k, ¬ Relation.TransGen (after changes).graph.Leads k k) ∧
      (∀ k, ((after changes).graph.places k).Pairwise (· < ·) ∧
        ∀ i, i ∈ (after changes).graph.places k ↔
          ∃ e, (after changes).graph.edges[i]? = some e ∧ Name.key e.child = k) ∧
      ∀ (i j : Nat) (e e' : Edge), (after changes).graph.edges[i]? = some e →
        (after changes).graph.edges[j]? = some e' →
        Name.key e.child = Name.key e'.child → e.relation = e'.relation →
        Name.key e.parent = Name.key e'.parent → i = j := by
  have hwf := wellFormed_after changes
  refine ⟨hwf.acyclic, fun k => ⟨hwf.indexed.places_sorted k, hwf.indexed.mem_places_iff k⟩, ?_⟩
  intro i j e e' hi hj hchild hrelation hparent
  have hat : ∀ (n : Nat) (x : Edge), (after changes).graph.edges[n]? = some x →
      ((after changes).graph.edges.toList.map Edge.identity)[n]? = some x.identity := by
    intro n x hx
    rw [List.getElem?_map, Array.getElem?_toList, hx]
    rfl
  have hsame : e.identity = e'.identity := by
    simp [Edge.identity, hchild, hrelation, hparent]
  have hj' := hat j e' hj
  rw [← hsame] at hj'
  obtain ⟨hlt, _⟩ := List.getElem?_eq_some_iff.1 (hat i e hi)
  exact (List.getElem?_inj hlt hwf.distinct).1 ((hat i e hi).trans hj'.symm)

end Catalog
end CrossReference
