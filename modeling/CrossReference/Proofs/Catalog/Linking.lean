import CrossReference.Proofs.Catalog.Agreement
import CrossReference.Proofs.Hierarchy.Acyclic

/-!
# What linking does

Linking turns the supertype clauses of the files into edges, one after the other, and refuses the
clauses that would close a cycle. Which clauses are refused depends on their order, but whether any
is refused does not: nothing is refused if and only if the clauses themselves form no cycle. When
nothing is refused, the edges of a type come from its own clauses, in their order, so clauses of
different types may trade places.

* `Catalog.Fresh.rejected_link_eq_nil_iff` and `Catalog.Fresh.graph_link` say so of linking.
* `Catalog.Fresh.link_agrees` compares two catalogs whose types have the same clauses.
-/

namespace CrossReference

theorem Edge.child_placeless (e : Edge) : e.placeless.child = e.child := rfl

/-- The list `edges` of the edges of one type, with one more unless it is there already. -/
def addEdge (edges : List Edge) (e : Edge) : List Edge :=
  if edges.any e.repeats then edges else edges ++ [e]

theorem map_placeless_addEdge (edges : List Edge) (e : Edge) :
    (addEdge edges e).map Edge.placeless = addEdge (edges.map Edge.placeless) e.placeless := by
  have hrepeats : (edges.map Edge.placeless).any e.placeless.repeats = edges.any e.repeats := by
    rw [List.any_map]
    rfl
  unfold addEdge
  rw [hrepeats]
  split
  · rfl
  · rw [List.map_append]
    rfl

theorem map_placeless_foldl_addEdge (edges more : List Edge) :
    (more.foldl addEdge edges).map Edge.placeless =
      (more.map Edge.placeless).foldl addEdge (edges.map Edge.placeless) := by
  induction more generalizing edges with
  | nil => rfl
  | cons e more ih =>
      rw [List.foldl_cons, ih, map_placeless_addEdge]
      rfl

/-- Some edge of a list leads from the type with key `a` to the type with key `b`. -/
def Relates (edges : List Edge) (a b : String) : Prop :=
  ∃ e ∈ edges, Name.key e.child = a ∧ Name.key e.parent = b

namespace Graph

theorem edgesFrom_push {g : Graph} (hg : g.Indexed) (e : Edge) (k : String) :
    (g.push e).edgesFrom k =
      if Name.key e.child = k then g.edgesFrom k ++ [e] else g.edgesFrom k := by
  rw [(hg.push e).edgesFrom_eq_filter, hg.edgesFrom_eq_filter,
    show (g.push e).edges = g.edges.push e from rfl, Array.toList_push, List.filter_append]
  by_cases hk : Name.key e.child = k
  · simp [hk]
  · simp [hk]

theorem edgesFrom_extend {g : Graph} (hg : g.Indexed) (e : Edge) (k : String) :
    (g.extend e).edgesFrom k =
      if Name.key e.child = k then addEdge (g.edgesFrom k) e else g.edgesFrom k := by
  unfold extend
  by_cases hk : Name.key e.child = k
  · subst hk
    rw [if_pos rfl, addEdge]
    split
    · rfl
    · rw [edgesFrom_push hg, if_pos rfl]
  · rw [if_neg hk]
    split
    · rfl
    · rw [edgesFrom_push hg, if_neg hk]

theorem Indexed.extend {g : Graph} (hg : g.Indexed) (e : Edge) : (g.extend e).Indexed := by
  unfold Graph.extend
  split
  · exact hg
  · exact hg.push e

/-- No edge is taken back. -/
theorem mem_edges_extend {g : Graph} {e : Edge} (h : e ∈ g.edges) (new : Edge) :
    e ∈ (g.extend new).edges := by
  unfold extend
  split
  · exact h
  · exact Array.mem_push.2 (.inl h)

/-- No edge but the new one is added. -/
theorem mem_or_eq_of_mem_edges_extend {g : Graph} {e new : Edge}
    (h : e ∈ (g.extend new).edges) : e ∈ g.edges ∨ e = new := by
  unfold extend at h
  split at h
  · exact .inl h
  · exact Array.mem_push.1 h

theorem leads_extend_iff {g : Graph} (hg : g.Indexed) (e : Edge) (a b : String) :
    (g.extend e).Leads a b ↔ g.Leads a b ∨ Name.key e.child = a ∧ Name.key e.parent = b := by
  unfold extend
  split
  · rename_i hdup
    refine ⟨.inl, ?_⟩
    rintro (hlead | ⟨rfl, rfl⟩)
    · exact hlead
    · -- The edge that is there already leads from the one type to the other.
      obtain ⟨e', he', hsame⟩ := List.any_eq_true.1 hdup
      obtain ⟨hmem, hchild⟩ := hg.mem_edgesFrom_iff.1 he'
      exact ⟨e', hmem, hchild, (Edge.repeats_iff.1 hsame).2⟩
  · exact leads_push_iff g e a b

/-- The edges of a type come from its own part of a list, in order. -/
theorem edgesFrom_foldl_extend {g : Graph} (hg : g.Indexed) (edges : List Edge) (k : String) :
    (edges.foldl Graph.extend g).edgesFrom k =
      (edges.filter (Name.key ·.child = k)).foldl addEdge (g.edgesFrom k) := by
  induction edges generalizing g with
  | nil => rfl
  | cons e edges ih =>
      rw [List.foldl_cons, ih (hg.extend e), edgesFrom_extend hg]
      by_cases hk : Name.key e.child = k
      · rw [if_pos hk, List.filter_cons_of_pos (by simpa using hk), List.foldl_cons]
      · rw [if_neg hk, List.filter_cons_of_neg (by simpa using hk)]

theorem leads_foldl_extend_iff {g : Graph} (hg : g.Indexed) (edges : List Edge) (a b : String) :
    (edges.foldl Graph.extend g).Leads a b ↔ g.Leads a b ∨ Relates edges a b := by
  induction edges generalizing g with
  | nil => simp [Relates]
  | cons e edges ih =>
      rw [List.foldl_cons, ih (hg.extend e), leads_extend_iff hg, or_assoc]
      simp [Relates]

end Graph

namespace Catalog

/-! ## One clause after the other -/

/-- The edge that a clause asks for; a clause whose parent has no candidates asks for none. -/
def wanted? (c : Catalog) (x : FileId × Clause) : Option Edge :=
  (c.resolve? x.2.parent).map fun parent => .between x.2.child parent x.2.relation (some x.1)

/-- The edges that the clauses ask for, in order. -/
def wantedEdges (c : Catalog) : List Edge :=
  c.allClauses.filterMap c.wanted?

theorem resolve?_congr {c c' : Catalog} (h : c.symbols = c'.symbols) :
    c.resolve? = c'.resolve? := by
  funext candidates
  unfold resolve? lookupType? lookup?
  rw [h]

theorem wanted?_linkClause (c : Catalog) (file : FileId) (clause : Clause) :
    (c.linkClause file clause).wanted? = c.wanted? := by
  funext x
  unfold wanted?
  rw [resolve?_congr (c.symbols_linkClause file clause).1]

/-- A clause is refused if there is a way back, and otherwise it adds its edge. -/
theorem linkClause_cases {c : Catalog} (hc : c.graph.Indexed) (x : FileId × Clause) :
    (c.wanted? x = none ∧ c.linkClause x.1 x.2 = c) ∨
      ∃ e, c.wanted? x = some e ∧
        ((Relation.ReflTransGen c.graph.Leads (Name.key e.parent) (Name.key e.child) ∧
            (c.linkClause x.1 x.2).rejected ≠ []) ∨
          (¬ Relation.ReflTransGen c.graph.Leads (Name.key e.parent) (Name.key e.child) ∧
            (c.linkClause x.1 x.2).rejected = c.rejected ∧
            (c.linkClause x.1 x.2).graph = c.graph.extend e)) := by
  unfold wanted? linkClause
  cases hparent : c.resolve? x.2.parent with
  | none => exact .inl ⟨rfl, rfl⟩
  | some parent =>
      refine .inr ⟨_, rfl, ?_⟩
      simp only [Edge.between, Name.key_relative]
      rcases hc.insert_cases x.2.child parent x.2.relation (some x.1) with
        ⟨hself, hinsert⟩ | ⟨_, hback, hinsert⟩ | ⟨hback, hinsert⟩
      · rw [hinsert]
        exact .inl ⟨hself ▸ .refl, by simp⟩
      · rw [hinsert]
        exact .inl ⟨hback, by simp⟩
      · rw [hinsert]
        exact .inr ⟨hback, rfl, rfl⟩

/-- The catalog after a list of clauses was linked. -/
def linkAll (c : Catalog) (work : List (FileId × Clause)) : Catalog :=
  work.foldl (fun c (file, clause) => c.linkClause file clause) c

theorem rejected_of_linkAll {c : Catalog} {work : List (FileId × Clause)}
    (h : (c.linkAll work).rejected = []) : c.rejected = [] := by
  induction work generalizing c with
  | nil => exact h
  | cons x work ih =>
      have hstep : (c.linkClause x.1 x.2).rejected = [] := ih h
      unfold linkClause at hstep
      split at hstep
      · exact hstep
      · split at hstep
        · exact hstep
        · exact absurd hstep (by simp)

theorem filterMap_wanted?_cons (c : Catalog) (x : FileId × Clause) (work : List (FileId × Clause)) :
    (x :: work).filterMap c.wanted? = (c.wanted? x).toList ++ work.filterMap c.wanted? := by
  cases h : c.wanted? x with
  | none => simp [h]
  | some e => simp [h]

/-- When no clause is refused, each has added its edge. -/
theorem graph_linkAll {c : Catalog} (hc : c.graph.Indexed) {work : List (FileId × Clause)}
    (h : (c.linkAll work).rejected = []) :
    (c.linkAll work).graph = (work.filterMap c.wanted?).foldl Graph.extend c.graph := by
  induction work generalizing c with
  | nil => rfl
  | cons x work ih =>
      have hrest : ((c.linkClause x.1 x.2).linkAll work).rejected = [] := h
      change ((c.linkClause x.1 x.2).linkAll work).graph = _
      rw [filterMap_wanted?_cons]
      rcases linkClause_cases hc x with ⟨hnone, hsame⟩ | ⟨e, he, hrefused | ⟨_, _, hgraph⟩⟩
      · rw [hsame] at hrest ⊢
        rw [ih hc hrest, hnone]
        rfl
      · exact absurd (rejected_of_linkAll hrest) hrefused.2
      · have hindexed : (c.linkClause x.1 x.2).graph.Indexed := hgraph ▸ hc.extend e
        rw [ih hindexed hrest, wanted?_linkClause, hgraph, he]
        rfl

/-- Clauses that form no cycle, neither by themselves nor with the edges that are there, are all
accepted. -/
theorem rejected_linkAll_eq_nil {c : Catalog} (hc : c.graph.Indexed) (hempty : c.rejected = [])
    {work : List (FileId × Clause)}
    (h : ∀ k, ¬ Relation.TransGen
      (fun a b => c.graph.Leads a b ∨ Relates (work.filterMap c.wanted?) a b) k k) :
    (c.linkAll work).rejected = [] := by
  induction work generalizing c with
  | nil => exact hempty
  | cons x work ih =>
      change ((c.linkClause x.1 x.2).linkAll work).rejected = []
      rw [filterMap_wanted?_cons] at h
      rcases linkClause_cases hc x with ⟨hnone, hsame⟩ | ⟨e, he, hrefused | ⟨_, hrejected, hgraph⟩⟩
      · rw [hsame]
        rw [hnone] at h
        exact ih hc hempty h
      · -- The way back and the edge that is asked for would form a cycle.
        rw [he] at h
        refine absurd (Relation.TransGen.head' (.inr ⟨e, by simp, rfl, rfl⟩) ?_)
          (h (Name.key e.child))
        exact Relation.ReflTransGen.mono (fun _ _ hlead => .inl hlead) _ _ hrefused.1
      · have hindexed : (c.linkClause x.1 x.2).graph.Indexed := hgraph ▸ hc.extend e
        refine ih hindexed (hrejected.trans hempty) ?_
        rw [he] at h
        intro k hcycle
        refine h k (Relation.TransGen.mono ?_ k k hcycle)
        intro a b hab
        rw [wanted?_linkClause, hgraph, Graph.leads_extend_iff hc] at hab
        rcases hab with (hlead | hedge) | ⟨e', he', hrelates⟩
        · exact .inl hlead
        · exact .inr ⟨e, by simp, hedge⟩
        · exact .inr ⟨e', List.mem_append_right _ he', hrelates⟩

/-! ## A new graph -/

/-- The clauses are all that there is to link: no edge was given directly, and the clauses have
changed since the last linking. -/
structure Fresh (c : Catalog) : Prop where
  graph : c.graph = ∅
  stale : c.stale = true

theorem Fresh.link_eq {c : Catalog} (hc : c.Fresh) : c.link = c.unlinked.linkAll c.allClauses := by
  unfold link
  rw [if_pos hc.stale]
  rfl

theorem Fresh.graph_unlinked {c : Catalog} (hc : c.Fresh) : c.unlinked.graph = ∅ := by
  unfold unlinked
  rw [hc.graph]
  rfl

theorem Fresh.graph_link {c : Catalog} (hc : c.Fresh) (h : c.link.rejected = []) :
    c.link.graph = c.wantedEdges.foldl Graph.extend ∅ := by
  rw [hc.link_eq] at h ⊢
  have hindexed : c.unlinked.graph.Indexed := hc.graph_unlinked ▸ Graph.wellFormed_empty.indexed
  rw [graph_linkAll hindexed h, hc.graph_unlinked]
  rfl

/-- Linking refuses nothing if and only if the clauses form no cycle. -/
theorem Fresh.rejected_link_eq_nil_iff {c : Catalog} (hc : c.Fresh) :
    c.link.rejected = [] ↔ ∀ k, ¬ Relation.TransGen (Relates c.wantedEdges) k k := by
  have hempty := Graph.wellFormed_empty
  constructor
  · intro h k hcycle
    have hwell : c.link.graph.WellFormed := wellFormed_link (hc.graph ▸ hempty)
    refine hwell.acyclic k (Relation.TransGen.mono ?_ k k hcycle)
    intro a b hab
    rw [hc.graph_link h, Graph.leads_foldl_extend_iff hempty.indexed]
    exact .inr hab
  · intro h
    rw [hc.link_eq]
    refine rejected_linkAll_eq_nil (hc.graph_unlinked ▸ hempty.indexed) rfl ?_
    intro k hcycle
    refine h k (Relation.TransGen.mono ?_ k k hcycle)
    rintro a b (⟨e, he, _⟩ | hab)
    · rw [hc.graph_unlinked] at he
      exact absurd he (Array.not_mem_empty e)
    · exact hab

/-! ## Two catalogs -/

/-- The edges that the clauses of the type with key `k` ask for, without their files. -/
def wantedFrom (c : Catalog) (k : String) : List Edge :=
  (c.wantedEdges.map Edge.placeless).filter (Name.key ·.child = k)

theorem relates_wantedEdges_iff (c : Catalog) (a b : String) :
    Relates c.wantedEdges a b ↔ ∃ e ∈ c.wantedFrom a, Name.key e.parent = b := by
  unfold Relates wantedFrom
  constructor
  · rintro ⟨e, he, ha, hb⟩
    exact ⟨e.placeless, List.mem_filter.2 ⟨List.mem_map_of_mem he, decide_eq_true ha⟩, hb⟩
  · rintro ⟨e', he', hb⟩
    obtain ⟨hmem, ha⟩ := List.mem_filter.1 he'
    obtain ⟨e, he, rfl⟩ := List.mem_map.1 hmem
    exact ⟨e, he, of_decide_eq_true ha, hb⟩

theorem Fresh.edgesFrom_link {c : Catalog} (hc : c.Fresh) (h : c.link.rejected = []) (k : String) :
    (c.link.graph.edgesFrom k).map Edge.placeless = (c.wantedFrom k).foldl addEdge [] := by
  have hnone : (∅ : Graph).edgesFrom k = [] := rfl
  have hchild : (fun e : Edge => decide (Name.key e.child = k)) ∘ Edge.placeless =
      fun e => decide (Name.key e.child = k) := by
    funext e
    rw [Function.comp_apply, Edge.child_placeless]
  rw [hc.graph_link h, Graph.edgesFrom_foldl_extend Graph.wellFormed_empty.indexed,
    map_placeless_foldl_addEdge, hnone, List.map_nil]
  unfold wantedFrom
  rw [List.filter_map, hchild]

theorem ancestorLimit_link (c : Catalog) : c.link.ancestorLimit = c.ancestorLimit := by
  have hclause : ∀ (c : Catalog) (file : FileId) (clause : Clause),
      (c.linkClause file clause).ancestorLimit = c.ancestorLimit := by
    intro c file clause
    unfold linkClause
    split
    · rfl
    · split
      · rfl
      · rfl
  have hall : ∀ (work : List (FileId × Clause)) (c : Catalog),
      (c.linkAll work).ancestorLimit = c.ancestorLimit := by
    intro work
    induction work with
    | nil => exact fun _ => rfl
    | cons x work ih => exact fun c => (ih _).trans (hclause c x.1 x.2)
  unfold link
  split
  · exact hall c.allClauses c.unlinked
  · rfl

/-- If the clauses of each type ask for the same edges and one linking refuses nothing, then neither
does the other, and the linked catalogs agree. -/
theorem Fresh.link_agrees {c c' : Catalog} (hc : c.Fresh) (hc' : c'.Fresh) (hagrees : c.Agrees c')
    (hwanted : ∀ k, c.wantedFrom k = c'.wantedFrom k) (h : c.link.rejected = []) :
    c'.link.rejected = [] ∧ c.link.Agrees c'.link := by
  have hrelates : Relates c'.wantedEdges = Relates c.wantedEdges := by
    funext a b
    rw [eq_iff_iff, relates_wantedEdges_iff, relates_wantedEdges_iff, hwanted]
  have h' : c'.link.rejected = [] := by
    rw [hc'.rejected_link_eq_nil_iff, hrelates]
    exact hc.rejected_link_eq_nil_iff.1 h
  obtain ⟨hsymbols, howners⟩ := c.symbols_link
  obtain ⟨hsymbols', howners'⟩ := c'.symbols_link
  refine ⟨h', ?_, ?_, ?_, hagrees.owned.congr hsymbols howners,
    hagrees.owned'.congr hsymbols' howners'⟩
  · intro key
    rw [hsymbols, hsymbols']
    exact hagrees.find? key
  · intro k
    rw [hc.edgesFrom_link h, hc'.edgesFrom_link h', hwanted]
  · rw [ancestorLimit_link, ancestorLimit_link]
    exact hagrees.ancestorLimit

end Catalog
end CrossReference
