import CrossReference.Proofs.Catalog.DirectEdges
import CrossReference.Proofs.Catalog.History

/-!
# What becomes of the clauses

Linking goes through the clauses in order and judges each by the edges that are there so far. Even
so the outcome can be read off the graph at the end. A clause that was refused closes a cycle with
the edges of that graph, since no edge is taken back; and one that was accepted has its edge there,
so that no way can lead back from its parent.

* `Catalog.refusal?` judges a clause by a graph, and `Graph.Refuses` says in terms of paths what it
  finds.
* `Catalog.Accounts` says that all clauses of a list are judged by one graph. `Accounts.linkStep` is
  the step lemma, and `Catalog.accounts_foldl` the run lemma.
* `Catalog.Sourced` says that the edges of the files come from their clauses.
* `Catalog.clauses_accounted_for` draws the conclusion for every catalog that has something to link.
-/

namespace CrossReference

namespace Graph

variable {g g' : Graph} {child parent : String} {relation : Relation}

/-- Among the direct supertypes of `child` is `parent`, by the given relation. -/
def Ties (g : Graph) (child parent : String) (relation : Relation) : Prop :=
  ∃ e ∈ g.supertypes child, e.relation = relation ∧ Name.same e.parent parent = true

instance (g : Graph) (child parent : String) (relation : Relation) :
    Decidable (g.Ties child parent relation) :=
  inferInstanceAs (Decidable (∃ e ∈ g.supertypes child,
    e.relation = relation ∧ Name.same e.parent parent = true))

/-- The reason for which a graph does not take an edge: it leads from a type to itself, or else
there is a way back from its parent to its child. -/
def Refuses (g : Graph) (child parent : String) (relation : Relation) (reason : EdgeError) : Prop :=
  (Name.key child = Name.key parent ∧ reason = .selfReference (Name.relative child) relation) ∨
    (Name.key child ≠ Name.key parent ∧
      Relation.ReflTransGen g.Leads (Name.key parent) (Name.key child) ∧
      reason = .cycle (Name.relative child) (Name.relative parent) relation)

theorem Indexed.insert_eq_error_iff_refuses (hg : g.Indexed) {origin : Option FileId}
    {reason : EdgeError} :
    (g.insert child parent relation origin).1 = .error reason ↔
      g.Refuses child parent relation reason :=
  hg.insert_eq_error_iff

theorem Indexed.ties_iff (hg : g.Indexed) :
    g.Ties child parent relation ↔
      ∃ e ∈ g.edges, e.identity = Edge.identityOf child parent relation := by
  unfold Ties Edge.identity Edge.identityOf
  refine exists_congr fun e => ?_
  rw [mem_supertypes_iff, hg.mem_edgesFrom_iff, Name.same_iff, Prod.mk.injEq, Prod.mk.injEq,
    and_assoc]

theorem ties_congr {a b : String} (h : Name.same a b = true) :
    g.Ties child a relation ↔ g.Ties child b relation := by
  unfold Ties
  simp only [Name.same_iff] at h ⊢
  simp only [h]

theorem Indexed.ties_extend (hg : g.Indexed) (child parent : String) (relation : Relation)
    (origin : Option FileId) :
    (g.extend (.between child parent relation origin)).Ties child parent relation := by
  rw [(hg.extend _).ties_iff, ← Edge.identity_between child parent relation origin]
  rcases hg.extend_cases (.between child parent relation origin) with ⟨hthere, hsame⟩ | ⟨_, hpush⟩
  · rw [hsame]
    exact hthere
  · rw [hpush]
    exact ⟨_, Array.mem_push.2 (.inr rfl), rfl⟩

theorem leads_mono (hsub : ∀ e ∈ g.edges, e ∈ g'.edges) {a b : String} (h : g.Leads a b) :
    g'.Leads a b := by
  obtain ⟨e, he, hends⟩ := h
  exact ⟨e, hsub e he, hends⟩

theorem Ties.mono (hg : g.Indexed) (hg' : g'.Indexed) (hsub : ∀ e ∈ g.edges, e ∈ g'.edges)
    (h : g.Ties child parent relation) : g'.Ties child parent relation := by
  obtain ⟨e, he, hidentity⟩ := hg.ties_iff.1 h
  exact hg'.ties_iff.2 ⟨e, hsub e he, hidentity⟩

/-- More edges are no reason to take what was refused. -/
theorem Refuses.mono (hsub : ∀ e ∈ g.edges, e ∈ g'.edges) {reason : EdgeError}
    (h : g.Refuses child parent relation reason) : g'.Refuses child parent relation reason := by
  rcases h with hself | ⟨hne, hback, hreason⟩
  · exact .inl hself
  · exact .inr ⟨hne, Relation.ReflTransGen.mono (fun _ _ => leads_mono hsub) _ _ hback, hreason⟩

/-- An edge that is there is not refused: a way back from its parent would close a cycle. -/
theorem WellFormed.not_refuses (hg : g.WellFormed) (h : g.Ties child parent relation)
    (reason : EdgeError) : ¬ g.Refuses child parent relation reason := by
  obtain ⟨e, he, hidentity⟩ := hg.indexed.ties_iff.1 h
  obtain ⟨hchild, hends⟩ := Prod.mk.inj hidentity
  have hlead : g.Leads (Name.key child) (Name.key parent) :=
    ⟨e, he, hchild, (Prod.mk.inj hends).2⟩
  rintro (⟨hself, _⟩ | ⟨_, hback, _⟩)
  · rw [hself] at hlead
    exact hg.acyclic _ (.single hlead)
  · exact hg.acyclic _ (.head' hlead hback)

end Graph

namespace Catalog

/-! ## One clause after the other, on the graph alone -/

/-- Adds the edge that a clause asks for to the graph, or the clause to the refused ones. -/
def linkStep (resolve : Candidates → Option String) (linked : Graph × List Rejection)
    (x : FileId × Clause) : Graph × List Rejection :=
  match resolve x.2.parent with
  | none => linked
  | some parent =>
    match linked.1.insert x.2.child parent x.2.relation (some x.1) with
    | (.ok _, g) => (g, linked.2)
    | (.error reason, g) =>
      (g, linked.2 ++ [{ file := x.1, line := x.2.line, reason := reason }])

/-- The graph that the clauses of a list make of the empty one, and the clauses that are refused. -/
def linkFresh (resolve : Candidates → Option String) (work : List (FileId × Clause)) :
    Graph × List Rejection :=
  work.foldl (linkStep resolve) (∅, [])

theorem linkClause_eq (c : Catalog) (x : FileId × Clause) :
    ((c.linkClause x.1 x.2).graph, (c.linkClause x.1 x.2).rejected) =
      linkStep c.resolve? (c.graph, c.rejected) x := by
  unfold linkClause linkStep
  cases c.resolve? x.2.parent with
  | none => rfl
  | some parent =>
      simp only
      obtain ⟨outcome, g⟩ := c.graph.insert x.2.child parent x.2.relation (some x.1)
      cases outcome with
      | ok _ => rfl
      | error reason => rfl

theorem linkAll_eq (c : Catalog) (work : List (FileId × Clause)) :
    ((c.linkAll work).graph, (c.linkAll work).rejected) =
      work.foldl (linkStep c.resolve?) (c.graph, c.rejected) := by
  induction work generalizing c with
  | nil => rfl
  | cons x work ih =>
      -- Linking a clause changes no symbol, so the later clauses are resolved as before.
      have hresolve : (c.linkClause x.1 x.2).resolve? = c.resolve? :=
        resolve?_congr (c.symbols_linkClause x.1 x.2).1
      rw [List.foldl_cons, ← linkClause_eq, ← hresolve]
      exact ih (c.linkClause x.1 x.2)

/-! ## Judging a clause by a graph -/

/-- The refusal of a clause by a graph, if the graph does not take its edge. -/
def refusal? (resolve : Candidates → Option String) (g : Graph) (x : FileId × Clause) :
    Option Rejection :=
  match resolve x.2.parent with
  | none => none
  | some parent =>
    match (g.insert x.2.child parent x.2.relation (some x.1)).1 with
    | .ok _ => none
    | .error reason => some { file := x.1, line := x.2.line, reason := reason }

section Judge

variable {resolve : Candidates → Option String} {g g' : Graph} {x : FileId × Clause}

theorem refusal?_of_none (h : resolve x.2.parent = none) : refusal? resolve g x = none := by
  unfold refusal?
  rw [h]

theorem refusal?_eq_some_iff (hg : g.Indexed) {parent : String}
    (hparent : resolve x.2.parent = some parent) {r : Rejection} :
    refusal? resolve g x = some r ↔
      r.file = x.1 ∧ r.line = x.2.line ∧ g.Refuses x.2.child parent x.2.relation r.reason := by
  have hrefuses : (g.insert x.2.child parent x.2.relation (some x.1)).1 = .error r.reason ↔ _ :=
    hg.insert_eq_error_iff_refuses
  rw [← hrefuses]
  cases hinsert : (g.insert x.2.child parent x.2.relation (some x.1)).1 with
  | ok _ => simp [refusal?, hparent, hinsert]
  | error reason =>
      obtain ⟨file, line, reason'⟩ := r
      simp only [refusal?, hparent, hinsert, Option.some.injEq, Rejection.mk.injEq,
        Except.error.injEq, eq_comm]

theorem file_of_refusal? {r : Rejection} (h : refusal? resolve g x = some r) : r.file = x.1 := by
  unfold refusal? at h
  split at h
  · exact absurd h (by simp)
  · split at h
    · exact absurd h (by simp)
    · rw [← Option.some.inj h]

/-- What linking one clause can do. -/
theorem linkStep_cases {linked : Graph × List Rejection} (hlinked : linked.1.Indexed)
    (x : FileId × Clause) :
    (resolve x.2.parent = none ∧ linkStep resolve linked x = linked) ∨
      ∃ parent, resolve x.2.parent = some parent ∧
        ((¬ Relation.ReflTransGen linked.1.Leads (Name.key parent) (Name.key x.2.child) ∧
            linkStep resolve linked x =
              (linked.1.extend (.between x.2.child parent x.2.relation (some x.1)), linked.2)) ∨
          ∃ r, refusal? resolve linked.1 x = some r ∧
            linkStep resolve linked x = (linked.1, linked.2 ++ [r])) := by
  cases hresolve : resolve x.2.parent with
  | none => exact .inl ⟨rfl, by simp only [linkStep, hresolve]⟩
  | some parent =>
      refine .inr ⟨parent, rfl, ?_⟩
      have hrefused : ∀ reason,
          linked.1.insert x.2.child parent x.2.relation (some x.1) = (.error reason, linked.1) →
          ∃ r, refusal? resolve linked.1 x = some r ∧
            linkStep resolve linked x = (linked.1, linked.2 ++ [r]) := by
        intro reason hinsert
        refine ⟨{ file := x.1, line := x.2.line, reason := reason }, ?_, ?_⟩
        · simp only [refusal?, hresolve, hinsert]
        · simp only [linkStep, hresolve, hinsert]
      rcases hlinked.insert_cases x.2.child parent x.2.relation (some x.1) with
        ⟨_, hinsert⟩ | ⟨_, _, hinsert⟩ | ⟨hback, hinsert⟩
      · exact .inr (hrefused _ hinsert)
      · exact .inr (hrefused _ hinsert)
      · exact .inl ⟨hback, by simp only [linkStep, hresolve, hinsert]⟩

end Judge

/-! ## All clauses judged by one graph -/

/-- The clauses of a list are accounted for: those that the graph refuses are listed, in order, and
each of the others has its edge. -/
structure Accounts (resolve : Candidates → Option String) (work : List (FileId × Clause))
    (linked : Graph × List Rejection) : Prop where
  wellFormed : linked.1.WellFormed
  rejected : linked.2 = work.filterMap (refusal? resolve linked.1)
  ties : ∀ x ∈ work, ∀ parent, resolve x.2.parent = some parent →
    refusal? resolve linked.1 x = none → linked.1.Ties x.2.child parent x.2.relation

section Accounts

variable {resolve : Candidates → Option String} {work : List (FileId × Clause)}
  {linked : Graph × List Rejection} {g : Graph} {x : FileId × Clause}

/-- More edges do not change the judgement of a clause that is accounted for. -/
theorem Accounts.refusal?_eq (h : Accounts resolve work linked) (hg : g.WellFormed)
    (hsub : ∀ e ∈ linked.1.edges, e ∈ g.edges) (hx : x ∈ work) :
    refusal? resolve g x = refusal? resolve linked.1 x := by
  cases hparent : resolve x.2.parent with
  | none => rw [refusal?_of_none hparent, refusal?_of_none hparent]
  | some parent =>
      cases hbefore : refusal? resolve linked.1 x with
      | some r =>
          rw [refusal?_eq_some_iff hg.indexed hparent]
          obtain ⟨hfile, hline, hrefuses⟩ :=
            (refusal?_eq_some_iff h.wellFormed.indexed hparent).1 hbefore
          exact ⟨hfile, hline, hrefuses.mono hsub⟩
      | none =>
          have hties := h.ties x hx parent hparent hbefore
          replace hties := hties.mono h.wellFormed.indexed hg.indexed hsub
          rw [Option.eq_none_iff_forall_ne_some]
          intro r hr
          exact hg.not_refuses hties r.reason ((refusal?_eq_some_iff hg.indexed hparent).1 hr).2.2

theorem Accounts.mono (h : Accounts resolve work linked) (hg : g.WellFormed)
    (hsub : ∀ e ∈ linked.1.edges, e ∈ g.edges) : Accounts resolve work (g, linked.2) where
  wellFormed := hg
  rejected := by
    rw [h.rejected]
    exact List.filterMap_congr fun x hx => (h.refusal?_eq hg hsub hx).symm
  ties := by
    intro x hx parent hparent hnone
    rw [h.refusal?_eq hg hsub hx] at hnone
    exact (h.ties x hx parent hparent hnone).mono h.wellFormed.indexed hg.indexed hsub

/-- One more clause that the graph refuses or has an edge for. -/
theorem Accounts.concat (h : Accounts resolve work linked)
    (hties : ∀ parent, resolve x.2.parent = some parent → refusal? resolve linked.1 x = none →
      linked.1.Ties x.2.child parent x.2.relation) :
    Accounts resolve (work ++ [x])
      (linked.1, linked.2 ++ (refusal? resolve linked.1 x).toList) where
  wellFormed := h.wellFormed
  rejected := by
    rw [List.filterMap_append, ← h.rejected]
    cases hx : refusal? resolve linked.1 x with
    | none => simp [hx]
    | some r => simp [hx]
  ties := by
    intro y hy
    rcases List.mem_append.1 hy with hy | hy
    · exact h.ties y hy
    · rw [List.mem_singleton.1 hy]
      exact hties

theorem Accounts.linkStep (h : Accounts resolve work linked) (x : FileId × Clause) :
    Accounts resolve (work ++ [x]) (linkStep resolve linked x) := by
  rcases linkStep_cases h.wellFormed.indexed x with
    ⟨hnone, heq⟩ | ⟨parent, hparent, ⟨hback, heq⟩ | ⟨r, hr, heq⟩⟩
  · rw [heq]
    have hall := h.concat (x := x) fun parent hparent => absurd (hnone.symm.trans hparent) (by simp)
    rw [refusal?_of_none hnone, Option.toList_none, List.append_nil] at hall
    exact hall
  · rw [heq]
    -- The edge comes first, and then the clause is one that the graph has an edge for.
    have hwell := h.wellFormed.extend hback x.2.relation (some x.1)
    have hties := h.wellFormed.indexed.ties_extend x.2.child parent x.2.relation (some x.1)
    have hmore := h.mono hwell fun e he => Graph.mem_edges_extend he _
    have hnone : refusal? resolve (linked.1.extend
        (.between x.2.child parent x.2.relation (some x.1))) x = none := by
      rw [Option.eq_none_iff_forall_ne_some]
      intro r hr
      exact hwell.not_refuses hties r.reason ((refusal?_eq_some_iff hwell.indexed hparent).1 hr).2.2
    have hall := hmore.concat (x := x) fun parent' hparent' _ => by
      rw [← Option.some.inj (hparent.symm.trans hparent')]
      exact hties
    rw [hnone, Option.toList_none, List.append_nil] at hall
    exact hall
  · rw [heq]
    have hall := h.concat (x := x) fun _ _ hnone => absurd (hr.symm.trans hnone) (by simp)
    rw [hr] at hall
    exact hall

theorem accounts_foldl (h : Accounts resolve work linked) (more : List (FileId × Clause)) :
    Accounts resolve (work ++ more) (more.foldl (Catalog.linkStep resolve) linked) := by
  induction more generalizing work linked with
  | nil => simpa using h
  | cons x more ih => simpa using ih (h.linkStep x)

/-- A clause that asks for an edge has it or is refused, and not both. -/
theorem Accounts.xor (h : Accounts resolve work linked) (hx : x ∈ work) {parent : String}
    (hparent : resolve x.2.parent = some parent) :
    Xor (linked.1.Ties x.2.child parent x.2.relation)
      (∃ r ∈ linked.2, r.file = x.1 ∧ r.line = x.2.line ∧
        linked.1.Refuses x.2.child parent x.2.relation r.reason) := by
  have hindexed := h.wellFormed.indexed
  cases hrefusal : refusal? resolve linked.1 x with
  | none =>
      have hties := h.ties x hx parent hparent hrefusal
      refine .inl ⟨hties, ?_⟩
      rintro ⟨r, _, _, _, hrefuses⟩
      exact h.wellFormed.not_refuses hties r.reason hrefuses
  | some r =>
      have hrefuses := (refusal?_eq_some_iff hindexed hparent).1 hrefusal
      refine .inr ⟨⟨r, ?_, hrefuses⟩, ?_⟩
      · rw [h.rejected]
        exact List.mem_filterMap.2 ⟨x, hx, hrefusal⟩
      · intro hties
        exact h.wellFormed.not_refuses hties r.reason hrefuses.2.2

end Accounts

/-! ## The edges of the files -/

/-- Each edge of a file is the one that a clause of the file asks for. -/
def Sourced (resolve : Candidates → Option String) (work : List (FileId × Clause)) (g : Graph) :
    Prop :=
  ∀ e ∈ g.edges, ∀ file, e.origin = some file → ∃ clause parent, (file, clause) ∈ work ∧
    resolve clause.parent = some parent ∧
      e = .between clause.child parent clause.relation (some file)

section Sourced

variable {resolve : Candidates → Option String} {work : List (FileId × Clause)}
  {linked : Graph × List Rejection}

theorem Sourced.append {g : Graph} (h : Sourced resolve work g) (more : List (FileId × Clause)) :
    Sourced resolve (work ++ more) g := by
  intro e he file horigin
  obtain ⟨clause, parent, hmem, hedge⟩ := h e he file horigin
  exact ⟨clause, parent, List.mem_append_left _ hmem, hedge⟩

theorem Sourced.linkStep (h : Sourced resolve work linked.1) (hindexed : linked.1.Indexed)
    (x : FileId × Clause) :
    Sourced resolve (work ++ [x]) (linkStep resolve linked x).1 := by
  rcases linkStep_cases hindexed x with
    ⟨_, heq⟩ | ⟨parent, hparent, ⟨_, heq⟩ | ⟨r, _, heq⟩⟩
  · rw [heq]
    exact h.append [x]
  · rw [heq]
    intro e he file horigin
    rcases Graph.mem_or_eq_of_mem_edges_extend he with hold | rfl
    · exact h.append [x] e hold file horigin
    · obtain rfl := Option.some.inj horigin
      exact ⟨x.2, parent, by simp, hparent, rfl⟩
  · rw [heq]
    exact h.append [x]

theorem sourced_foldl (hsourced : Sourced resolve work linked.1)
    (h : Accounts resolve work linked) (more : List (FileId × Clause)) :
    Sourced resolve (work ++ more) (more.foldl (Catalog.linkStep resolve) linked).1 := by
  induction more generalizing work linked with
  | nil => simpa using hsourced
  | cons x more ih =>
      simpa using ih (hsourced.linkStep h.wellFormed.indexed x) (h.linkStep x)

end Sourced

/-! ## Every catalog with something to link -/

theorem accounts_linkFresh (resolve : Candidates → Option String)
    (work : List (FileId × Clause)) : Accounts resolve work (linkFresh resolve work) := by
  have hstart : Accounts resolve [] (∅, []) := ⟨Graph.wellFormed_empty, rfl, by simp⟩
  exact accounts_foldl hstart work

section Link

variable {c : Catalog}

theorem link_eq_of_stale (h : c.stale = true) : c.link = c.unlinked.linkAll c.allClauses := by
  unfold link
  rw [if_pos h]
  rfl

theorem allClauses_link (c : Catalog) : c.link.allClauses = c.allClauses := by
  unfold allClauses
  rw [c.clauses_link]

theorem resolve?_link (c : Catalog) : c.link.resolve? = c.resolve? :=
  resolve?_congr c.symbols_link.1

/-- Linking begins with the edges that were given directly, and none of them is of a file. -/
theorem accounts_unlinked (hc : c.graph.WellFormed) (resolve : Candidates → Option String) :
    Accounts resolve [] (c.unlinked.graph, []) ∧ Sourced resolve [] c.unlinked.graph := by
  refine ⟨⟨hc.ofEdges List.filter_sublist, rfl, by simp⟩, ?_⟩
  intro e he file horigin
  unfold unlinked at he
  rw [← Array.mem_toList_iff, Graph.toList_edges_ofEdges, List.mem_filter, horigin] at he
  exact absurd he.2 (by simp)

theorem accounts_link (hc : c.graph.WellFormed) (hstale : c.stale = true) :
    Accounts c.resolve? c.allClauses (c.link.graph, c.link.rejected) ∧
      Sourced c.resolve? c.allClauses c.link.graph := by
  have hresolve : c.unlinked.resolve? = c.resolve? := resolve?_congr rfl
  have hlink : (c.link.graph, c.link.rejected) =
      c.allClauses.foldl (linkStep c.resolve?) (c.unlinked.graph, []) := by
    rw [link_eq_of_stale hstale, ← hresolve]
    exact c.unlinked.linkAll_eq c.allClauses
  obtain ⟨hstart, hsourced⟩ := accounts_unlinked hc c.resolve?
  have hgraph := congrArg Prod.fst hlink
  rw [hlink, show c.link.graph = _ from hgraph]
  exact ⟨accounts_foldl hstart c.allClauses, sourced_foldl hsourced hstart c.allClauses⟩

/-- Candidates stand for something if there are any. -/
theorem exists_resolve? (c : Catalog) {candidates : Candidates} (h : candidates ≠ []) :
    ∃ parent, c.resolve? candidates = some parent := by
  unfold resolve?
  cases candidates.findSome? c.lookupType? with
  | some s => exact ⟨s.qualifiedName, rfl⟩
  | none => exact ⟨candidates.head h, List.head?_eq_some_head h⟩

end Link

/-- After any changes that leave something to link, take the catalog that linking gives. Each clause
whose parent has candidates has its edge, or else it is refused and the reason holds in the graph at
the end: the parent is the child itself, or a path leads from the parent to the child. The refused
clauses are listed in order and once each, and nothing else is. Each edge of a file is one that a
clause of the file asks for. -/
theorem clauses_accounted_for (changes : List Change) (h : (after changes).stale = true) :
    let c := (after changes).link
    (∀ file clause, (file, clause) ∈ c.allClauses → clause.parent ≠ [] →
      ∃ parent, c.resolve? clause.parent = some parent ∧
        Xor (c.graph.Ties clause.child parent clause.relation)
          (∃ r ∈ c.rejected, r.file = file ∧ r.line = clause.line ∧
            c.graph.Refuses clause.child parent clause.relation r.reason)) ∧
      c.rejected = c.allClauses.filterMap (refusal? c.resolve? c.graph) ∧
      ∀ e ∈ c.graph.edges, ∀ file, e.origin = some file → ∃ clause parent,
        (file, clause) ∈ c.allClauses ∧ c.resolve? clause.parent = some parent ∧
          e = .between clause.child parent clause.relation (some file) := by
  intro c
  obtain ⟨haccounts, hsourced⟩ := accounts_link (wellFormed_after changes) h
  rw [← resolve?_link, ← allClauses_link] at haccounts hsourced
  refine ⟨?_, haccounts.rejected, hsourced⟩
  intro file clause hmem hne
  obtain ⟨parent, hparent⟩ := c.exists_resolve? hne
  exact ⟨parent, hparent, haccounts.xor hmem hparent⟩

/-- A file whose second clause closes a cycle with its first one and an edge that was given, and
whose third clause names its own child. -/
def knot : List Change :=
  [.declare (.ofName (.type .classDecl) "Shape" ⟨1⟩),
   .relate "Shape" "Drawable" .implementing,
   .setClauses ⟨0⟩
    [⟨"App\\Circle", ["App\\Shape", "shape"], .extending, 1⟩,
     ⟨"drawable", ["App\\circle"], .extending, 2⟩,
     ⟨"App\\Circle", ["\\APP\\Circle"], .mixingIn, 3⟩]]

/-- The second clause is refused although its names are undeclared and spelled in another way. -/
theorem knot_accounted :
    let c := (after knot).link
    (after knot).stale = true ∧ c.graph.Ties "App\\Circle" "Shape" .extending ∧
      c.rejected =
        [⟨⟨0⟩, 2, .cycle "drawable" "App\\circle" .extending⟩,
         ⟨⟨0⟩, 3, .selfReference "App\\Circle" .mixingIn⟩] ∧
      ¬ c.graph.Ties "drawable" "App\\circle" .extending ∧
      Relation.ReflTransGen c.graph.Leads (Name.key "App\\circle") (Name.key "drawable") := by
  intro c
  obtain ⟨hstale, hties, hrejected, hmem, hresolve, hne, hrefused⟩ :
      (after knot).stale = true ∧ c.graph.Ties "App\\Circle" "Shape" .extending ∧
      c.rejected =
        [⟨⟨0⟩, 2, .cycle "drawable" "App\\circle" .extending⟩,
         ⟨⟨0⟩, 3, .selfReference "App\\Circle" .mixingIn⟩] ∧
      (⟨0⟩, ⟨"drawable", ["App\\circle"], .extending, 2⟩) ∈ c.allClauses ∧
      c.resolve? ["App\\circle"] = some "App\\circle" ∧
      Name.key "drawable" ≠ Name.key "App\\circle" ∧
      ¬ c.graph.Ties "drawable" "App\\circle" .extending := by
    decide +kernel
  obtain ⟨parent, hparent, hxor⟩ := (clauses_accounted_for knot hstale).1 _ _ hmem (by simp)
  obtain rfl := Option.some.inj (hresolve.symm.trans hparent)
  refine ⟨hstale, hties, hrejected, hrefused, ?_⟩
  rcases hxor with ⟨htied, _⟩ | ⟨⟨r, _, _, _, hself | ⟨_, hback, _⟩⟩, _⟩
  · exact absurd htied hrefused
  · exact absurd hself.1 hne
  · exact hback

end Catalog
end CrossReference
