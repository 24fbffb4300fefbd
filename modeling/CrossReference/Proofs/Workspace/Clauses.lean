import CrossReference.Proofs.Workspace.Consistency
import CrossReference.Proofs.Workspace.Relinking

/-!
# What becomes of a clause

Linking accounts for each clause: it has an edge or it is refused. A snapshot is freshly linked, so
in a snapshot every clause of an indexed file is accounted for.

* `Catalog.Accounted` says what becomes of a clause.
* `Workspace.accounts_snapshot` says that a snapshot accounts for all clauses.
* `Workspace.SnapshotLinked` collects what is known of the catalog of a snapshot.
-/

namespace CrossReference

namespace Catalog

/-- There is an edge for a clause with the given parent, or the clause was refused. -/
def Accounted (linked : Graph × List Rejection) (x : FileId × Clause) (parent : String) : Prop :=
  (∃ e ∈ linked.1.edgesFrom (Name.key x.2.child),
      e.relation = x.2.relation ∧ Name.key e.parent = Name.key parent) ∨
    ∃ r ∈ linked.2, r.file = x.1 ∧ r.line = x.2.line

theorem Accounts.accounted {resolve : Candidates → Option String}
    {work : List (FileId × Clause)} {linked : Graph × List Rejection}
    (h : Accounts resolve work linked) {x : FileId × Clause} (hx : x ∈ work) {parent : String}
    (hparent : resolve x.2.parent = some parent) : Accounted linked x parent := by
  rcases h.xor hx hparent with ⟨⟨e, he, hrelation, hsame⟩, _⟩ | ⟨⟨r, hr, hfile, hline, _⟩, _⟩
  · exact .inl ⟨e, Graph.mem_supertypes_iff.1 he, hrelation, Name.same_iff.1 hsame⟩
  · exact .inr ⟨r, hr, hfile, hline⟩

end Catalog

namespace Workspace

/-- What is known of the catalog of a snapshot: it keeps symbols under their keys, its graph is well
formed, it has the clauses of each indexed file, and it accounts for them. -/
structure SnapshotLinked (w : Workspace) : Prop where
  owned : w.snapshot.catalog.Owned
  wellFormed : w.snapshot.catalog.graph.WellFormed
  clauses : ∀ id f, w.files.find? id = some f →
    w.snapshot.catalog.clauses.find? id = some (f.declarations id).clauses
  accounted : ∀ x ∈ w.snapshot.catalog.allClauses, ∀ parent,
    w.snapshot.catalog.resolve? x.2.parent = some parent →
      Catalog.Accounted (w.snapshot.catalog.graph, w.snapshot.catalog.rejected) x parent

/-- The clauses of an indexed file are among those of the catalog. -/
theorem SnapshotLinked.mem_allClauses {w : Workspace} (hw : w.SnapshotLinked) {id : FileId}
    {f : SourceFile} (hf : w.files.find? id = some f) {clause : Clause}
    (hclause : clause ∈ (f.declarations id).clauses) :
    (id, clause) ∈ w.snapshot.catalog.allClauses := by
  have hentry := OrderedMap.mem_entries_of_find? (hw.clauses id f hf)
  exact List.mem_flatMap.2 ⟨_, hentry, List.mem_map_of_mem hclause⟩

/-- Calls without a store are calls. -/
theorem after_eq_afterWith (settings : Settings) (calls : List Call) :
    after settings calls = afterWith settings (calls.map fun c => (none, c)) := by
  have hcall : ∀ (w : Workspace) (c : Call), w.call c = (w.respond none c).2.1 := by
    intro w c
    cases c <;> rfl
  unfold after afterWith
  rw [List.foldl_map]
  exact congrArg (fun f => calls.foldl f _) (funext₂ hcall)

/-- A snapshot accounts for all clauses, with the symbols that it has. -/
theorem accounts_snapshot (settings : Settings) (calls : List Call) :
    let c := (after settings calls).snapshot.catalog
    Catalog.Accounts c.resolve? c.allClauses (c.graph, c.rejected) := by
  intro c
  have hdate : (after settings calls).catalog.UpToDate := by
    rw [after_eq_afterWith]
    exact (relinked_after settings _).upToDate
  have hlink : (c.graph, c.rejected) = _ := hdate.link_eq
  rw [hlink, show c.resolve? = _ from Catalog.resolve?_link _,
    show c.allClauses = _ from Catalog.allClauses_link _]
  exact Catalog.accounts_linkFresh _ _

theorem snapshotLinked_after (settings : Settings) (calls : List Call) :
    (after settings calls).SnapshotLinked := by
  have hw := consistent_after settings calls
  have haccounts := accounts_snapshot settings calls
  generalize after settings calls = w at hw haccounts
  constructor
  case owned => exact hw.owned.congr w.catalog.symbols_link.1 w.catalog.symbols_link.2
  case wellFormed => exact haccounts.wellFormed
  case clauses =>
    intro id f hf
    rw [show w.snapshot.catalog.clauses = w.catalog.clauses from w.catalog.clauses_link,
      hw.clauses id, hf, Option.map_some]
  case accounted =>
    intro x hx parent hparent
    exact haccounts.accounted hx hparent

end Workspace
end CrossReference
