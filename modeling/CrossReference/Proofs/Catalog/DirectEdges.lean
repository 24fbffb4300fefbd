import CrossReference.Proofs.Catalog.Linking
import CrossReference.Proofs.Catalog.Lookup

/-!
# Edges that were given directly

An edge comes into the graph directly or through a clause of a file. One that is given directly is
refused if it closes a cycle, and then nothing changes. Linking throws the edges of the files away
and makes them anew, while an edge that was given directly stays for good. But no edge is there
twice: one that a file has declared already is accepted without being added again, and then it goes
when the file does.

* `Catalog.Given` says that an edge was given directly. `Catalog.Given.apply` is the step lemma and
  `Catalog.Given.foldl_apply` the run lemma: it stays, whatever changes follow.
* `Catalog.given_relate_iff` says when an edge that is accepted counts as given.
* `Catalog.graph_withdraw` is a sequence of changes that leaves only the edges that were given.
* `Catalog.accepted_edge_kept_iff` puts them together, and `Catalog.declared_edge_lost` is an edge
  that was accepted and goes with a file.
* `Catalog.relate_refuses_cycles` says which edges are refused and what an accepted one changes.
-/

namespace CrossReference

theorem Graph.Indexed.mem_edges_insert {g : Graph} (hg : g.Indexed) {e : Edge} (he : e ∈ g.edges)
    (child parent : String) (relation : Relation) (origin : Option FileId) :
    e ∈ (g.insert child parent relation origin).2.edges := by
  rcases hg.insert_cases child parent relation origin with
    ⟨_, hresult⟩ | ⟨_, _, hresult⟩ | ⟨_, hresult⟩
  · rw [hresult]
    exact he
  · rw [hresult]
    exact he
  · rw [hresult]
    exact mem_edges_extend he _

namespace Catalog

/-- There is an edge with the identity `i` that was given directly. -/
def Given (c : Catalog) (i : String × Relation × String) : Prop :=
  ∃ e ∈ c.graph.edges, e.origin = none ∧ e.identity = i

variable {c c' : Catalog} {i : String × Relation × String} {child parent : String}
  {relation : Relation}

/-- The direct supertypes of a type tell which edges there are. -/
theorem mem_supertypes_and_iff (hc : c.graph.WellFormed) {e : Edge} :
    (e ∈ c.graph.supertypes child ∧ e.relation = relation ∧ Name.same e.parent parent = true) ↔
      e ∈ c.graph.edges ∧ e.identity = Edge.identityOf child parent relation := by
  rw [Graph.mem_supertypes_iff, hc.indexed.mem_edgesFrom_iff, Name.same_iff]
  unfold Edge.identity Edge.identityOf
  rw [Prod.mk.injEq, Prod.mk.injEq, and_assoc]

/-! ## What was given stays -/

theorem Given.mono (h : c.Given i) (hedges : ∀ e ∈ c.graph.edges, e ∈ c'.graph.edges) :
    c'.Given i := by
  obtain ⟨e, he, hgiven⟩ := h
  exact ⟨e, hedges e he, hgiven⟩

theorem Given.linkClause (h : c.Given i) (hc : c.graph.WellFormed) (file : FileId)
    (clause : Clause) : (c.linkClause file clause).Given i := by
  refine h.mono fun e he => ?_
  rcases linkClause_graph c file clause with hgraph | ⟨parent, hgraph⟩
  · rwa [hgraph]
  · rw [hgraph]
    exact hc.indexed.mem_edges_insert he _ _ _ _

/-- Linking starts from the edges that were given. -/
theorem Given.unlinked (h : c.Given i) : c.unlinked.Given i := by
  obtain ⟨e, he, horigin, hidentity⟩ := h
  refine ⟨e, ?_, horigin, hidentity⟩
  unfold Catalog.unlinked
  rw [← Array.mem_toList_iff, Graph.toList_edges_ofEdges, List.mem_filter]
  exact ⟨Array.mem_toList_iff.2 he, by simp [horigin]⟩

theorem Given.link (h : c.Given i) (hc : c.graph.WellFormed) : c.link.Given i := by
  unfold Catalog.link
  split
  · have hstart := h.unlinked
    have hwell : c.unlinked.graph.WellFormed := hc.ofEdges List.filter_sublist
    generalize c.allClauses = work
    generalize c.unlinked = c' at hstart hwell
    induction work generalizing c' with
    | nil => exact hstart
    | cons next rest ih =>
        exact ih _ (hstart.linkClause hwell next.1 next.2)
          (wellFormed_linkClause hwell next.1 next.2)
  · exact h

theorem Given.apply (h : c.Given i) (hc : c.graph.WellFormed) (change : Change) :
    (c.apply change).Given i := by
  cases change with
  | relate child parent relation =>
      rw [apply_relate]
      exact h.mono fun e he => hc.indexed.mem_edges_insert he child parent relation none
  | link => exact h.link hc
  | declare s => exact h
  | removeFile file => exact h
  | setClauses file clauses => exact h
  | setAncestorLimit limit => exact h

theorem Given.foldl_apply (h : c.Given i) (hc : c.graph.WellFormed) (later : List Change) :
    (later.foldl Catalog.apply c).Given i := by
  induction later generalizing c with
  | nil => exact h
  | cons change later ih => exact ih (h.apply hc change) (wellFormed_apply hc change)

theorem wellFormed_foldl_apply (hc : c.graph.WellFormed) (later : List Change) :
    (later.foldl Catalog.apply c).graph.WellFormed := by
  induction later generalizing c with
  | nil => exact hc
  | cons change later ih => exact ih (wellFormed_apply hc change)

/-! ## What counts as given -/

/-- An edge is accepted if there is no way back, and then the graph changes and nothing else. -/
theorem relate_eq_ok_iff (hc : c.graph.WellFormed) :
    c.relate child parent relation = (.ok (), c') ↔
      ¬ Relation.ReflTransGen c.graph.Leads (Name.key parent) (Name.key child) ∧
        c' = { c with graph := c.graph.extend (.between child parent relation none) } := by
  unfold relate
  rcases hc.indexed.insert_cases child parent relation none with
    ⟨hself, hresult⟩ | ⟨_, hback, hresult⟩ | ⟨hback, hresult⟩
  · simp [hresult, hself, Relation.ReflTransGen.refl]
  · simp [hresult, hback]
  · simp [hresult, hback, eq_comm]

/-- Edges with the same identity are the same edge. -/
theorem eq_of_identity_eq (hc : c.graph.WellFormed) {e e' : Edge} (he : e ∈ c.graph.edges)
    (he' : e' ∈ c.graph.edges) (h : e.identity = e'.identity) : e = e' :=
  List.inj_on_of_nodup_map hc.distinct (Array.mem_toList_iff.2 he) (Array.mem_toList_iff.2 he') h

/-- An edge that is accepted counts as given, unless it is there already and comes from a file. -/
theorem given_relate_iff (hc : c.graph.WellFormed)
    (h : c.relate child parent relation = (.ok (), c')) :
    c'.Given (Edge.identityOf child parent relation) ↔
      ∀ e ∈ c.graph.edges, e.identity = Edge.identityOf child parent relation →
        e.origin = none := by
  obtain ⟨_, rfl⟩ := (relate_eq_ok_iff hc).1 h
  unfold Given
  rw [← Edge.identity_between child parent relation none]
  rcases hc.indexed.extend_cases (.between child parent relation none) with
    ⟨⟨e, he, hidentity⟩, hsame⟩ | ⟨hnew, hpush⟩
  · rw [hsame]
    constructor
    · rintro ⟨e₁, he₁, horigin, hidentity₁⟩ e₂ he₂ hidentity₂
      rwa [eq_of_identity_eq hc he₂ he₁ (hidentity₂.trans hidentity₁.symm)]
    · intro hall
      exact ⟨e, he, hall e he hidentity, hidentity⟩
  · rw [hpush]
    refine iff_of_true ⟨_, Array.mem_push.2 (.inr rfl), rfl, rfl⟩ ?_
    intro e he hidentity
    exact absurd hidentity (hnew e he)

/-! ## What was not given can go -/

/-- The changes that remove all files and link what is left. A last file without clauses makes sure
that there is something to link. -/
def withdraw (c : Catalog) : List Change :=
  c.clauses.keys.map .removeFile ++ [.setClauses default [], .link]

theorem foldl_removeFile (files : List FileId) :
    ((files.map Change.removeFile).foldl Catalog.apply c).graph = c.graph ∧
      ((files.map Change.removeFile).foldl Catalog.apply c).clauses.keys =
        c.clauses.keys.filter (· ∉ files) := by
  induction files generalizing c with
  | nil => simp
  | cons file files ih =>
      obtain ⟨hgraph, hkeys⟩ := ih (c := c.removeFile file)
      refine ⟨hgraph, hkeys.trans ?_⟩
      show (c.clauses.erase file).keys.filter (· ∉ files) = _
      rw [OrderedMap.keys_erase, List.filter_filter]
      refine List.filter_congr ?_
      intro f _
      simp [Bool.and_comm]

/-- When all files are gone, the edges that were given are left. -/
theorem graph_withdraw (c : Catalog) :
    (c.withdraw.foldl Catalog.apply c).graph =
      .ofEdges (c.graph.edges.toList.filter (·.origin.isNone)) := by
  obtain ⟨hgraph, hkeys⟩ := foldl_removeFile (c := c) c.clauses.keys
  unfold withdraw
  rw [List.foldl_append]
  generalize (c.clauses.keys.map Change.removeFile).foldl Catalog.apply c = bare at hgraph hkeys
  have hnone : bare.clauses.keys = [] := by
    refine hkeys.trans (List.filter_eq_nil_iff.2 ?_)
    intro f hf
    simpa using hf
  have hlast : (bare.clauses.insert default []).entries = [(default, [])] := by
    rw [OrderedMap.entries_insert_of_new (by simp [hnone]), List.map_eq_nil_iff.1 hnone]
    rfl
  have hwork : (bare.setClauses default []).allClauses = [] :=
    congrArg (List.flatMap _) hlast
  show (bare.setClauses default []).link.graph = _
  unfold Catalog.link
  rw [hwork, show (bare.setClauses default []).stale = true from rfl, if_pos rfl, List.foldl_nil]
  unfold Catalog.unlinked
  rw [show (bare.setClauses default []).graph = c.graph from hgraph]

/-! ## Edges that are accepted -/

/-- After any changes, an edge that is accepted stays among the direct supertypes of its child for
good, whatever changes follow, if and only if it was not there already as the edge of a file. -/
theorem accepted_edge_kept_iff (changes : List Change) {child parent : String}
    {relation : Relation} {c' : Catalog}
    (h : (after changes).relate child parent relation = (.ok (), c')) :
    (∀ later : List Change, ∃ e ∈ (later.foldl Catalog.apply c').graph.supertypes child,
        e.relation = relation ∧ Name.same e.parent parent = true) ↔
      ∀ e ∈ (after changes).graph.supertypes child, e.relation = relation →
        Name.same e.parent parent = true → e.origin = none := by
  have hc := wellFormed_after changes
  have hc' : c'.graph.WellFormed := by
    obtain ⟨hback, rfl⟩ := (relate_eq_ok_iff hc).1 h
    exact hc.extend hback relation none
  have hgiven := given_relate_iff hc h
  have hleft : (∀ e ∈ (after changes).graph.supertypes child, e.relation = relation →
        Name.same e.parent parent = true → e.origin = none) ↔
      ∀ e ∈ (after changes).graph.edges,
        e.identity = Edge.identityOf child parent relation → e.origin = none := by
    refine forall_congr' fun e => ?_
    rw [← and_imp, ← and_imp, ← and_imp, and_assoc, mem_supertypes_and_iff hc]
  rw [hleft, ← hgiven]
  constructor
  · intro hkept
    -- All files go, and the edge is still there.
    obtain ⟨e, hedge⟩ := hkept c'.withdraw
    obtain ⟨he, hidentity⟩ :=
      (mem_supertypes_and_iff (wellFormed_foldl_apply hc' c'.withdraw)).1 hedge
    rw [graph_withdraw, ← Array.mem_toList_iff, Graph.toList_edges_ofEdges, List.mem_filter,
      Array.mem_toList_iff] at he
    exact ⟨e, he.1, Option.isNone_iff_eq_none.1 he.2, hidentity⟩
  · intro hgiven later
    obtain ⟨e, he, _, hidentity⟩ := hgiven.foldl_apply hc' later
    exact ⟨e, (mem_supertypes_and_iff (wellFormed_foldl_apply hc' later)).2 ⟨he, hidentity⟩⟩

/-- A class that extends another one. -/
def circleClause : Clause where
  child := "Circle"
  parent := ["Shape"]
  relation := .extending

/-- The edge was given before a file declares it, and is still there when the file is gone. -/
theorem given_edge_kept :
    ∃ c', (after []).relate "Circle" "Shape" .extending = (.ok (), c') ∧
      ∃ e ∈ ([.setClauses ⟨0⟩ [circleClause], .link, .removeFile ⟨0⟩, .link].foldl Catalog.apply
          c').graph.supertypes "Circle",
        e.relation = .extending ∧ Name.same e.parent "Shape" = true := by
  have haccepted : ((after []).relate "Circle" "Shape" .extending).1 = .ok () := by
    decide +kernel
  have hrelate : (after []).relate "Circle" "Shape" .extending =
      (.ok (), ((after []).relate "Circle" "Shape" .extending).2) :=
    Prod.ext haccepted rfl
  refine ⟨_, hrelate, (accepted_edge_kept_iff [] hrelate).2 ?_ _⟩
  decide +kernel

/-- The file has declared the edge before it is given, and takes it away. -/
theorem declared_edge_lost :
    let declared := after [.setClauses ⟨0⟩ [circleClause], .link]
    let (outcome, c') := declared.relate "Circle" "Shape" .extending
    outcome = .ok () ∧ (c'.graph.supertypes "Circle").map Edge.parent = ["Shape"] ∧
      ([.removeFile ⟨0⟩, .link].foldl Catalog.apply c').graph.supertypes "Circle" = [] := by
  decide +kernel

/-! ## Edges that are refused -/

/-- An edge that is refused changes nothing. -/
theorem relate_of_error (hc : c.graph.WellFormed) {reason : EdgeError}
    (h : (c.relate child parent relation).1 = .error reason) :
    (c.relate child parent relation).2 = c := by
  have hgraph : (c.graph.insert child parent relation none).2 = c.graph :=
    hc.indexed.insert_of_error h
  unfold relate
  simp only [hgraph]

/-- After any changes, an edge is refused as a reference to itself if and only if its two names
agree up to leading separators and case, and as a cycle if and only if they do not and a path of
edges leads from its parent to its child; in all other cases it is accepted. An edge that is refused
leaves the catalog as it was. One that is accepted changes nothing but the graph, to which it is
added unless it is there already. In any graph the search for the path ends. -/
theorem relate_refuses_cycles (changes : List Change) (child parent : String)
    (relation : Relation) :
    let c := after changes
    let outcome := (c.relate child parent relation).1
    let c' := c.apply (.relate child parent relation)
    let isBack := Relation.ReflTransGen c.graph.Leads (Name.key parent) (Name.key child)
    (outcome = .error (.selfReference (Name.relative child) relation) ↔
        Name.key child = Name.key parent) ∧
      (outcome = .error (.cycle (Name.relative child) (Name.relative parent) relation) ↔
        Name.key child ≠ Name.key parent ∧ isBack) ∧
      (outcome = .ok () ↔ Name.key child ≠ Name.key parent ∧ ¬ isBack) ∧
      (∀ reason, outcome = .error reason → c' = c) ∧
      (outcome = .ok () → c' = { c with graph := c'.graph } ∧
        ((∃ e ∈ c.graph.edges, e.identity = Edge.identityOf child parent relation) ∧
            c'.graph = c.graph ∨
          (∀ e ∈ c.graph.edges, e.identity ≠ Edge.identityOf child parent relation) ∧
            c'.graph = c.graph.push (.between child parent relation none))) ∧
      ∀ (g : Graph) (source target : String),
        Loop.run (g.searchRound (Name.key target)) (g.unseenEdges [] + 2)
          { toVisit := [Name.key source] } = some (g.reaches source target) := by
  intro c outcome c' isBack
  have hc : c.graph.WellFormed := wellFormed_after changes
  have herror : ∀ reason, outcome = .error reason ↔ _ :=
    fun reason => hc.indexed.insert_eq_error_iff
  have hok : outcome = .ok () → _ := fun h => (relate_eq_ok_iff hc).1 (Prod.ext h rfl)
  refine ⟨?_, ?_, ?_, fun reason => relate_of_error hc, ?_, Graph.run_searchRound⟩
  · rw [herror]
    simp
  · rw [herror]
    simp [isBack]
  · constructor
    · intro haccepted
      obtain ⟨hback, _⟩ := hok haccepted
      refine ⟨?_, hback⟩
      intro hself
      simp only [hself, Relation.ReflTransGen.refl, not_true_eq_false] at hback
    · rintro ⟨_, hback⟩
      exact congrArg Prod.fst ((relate_eq_ok_iff hc).2 ⟨hback, rfl⟩)
  · intro haccepted
    obtain ⟨_, hafter⟩ := hok haccepted
    have hgraph : c'.graph = c.graph.extend (.between child parent relation none) :=
      congrArg Catalog.graph hafter
    refine ⟨rfl, ?_⟩
    rw [hgraph, ← Edge.identity_between child parent relation none]
    exact hc.indexed.extend_cases _

end Catalog
end CrossReference
