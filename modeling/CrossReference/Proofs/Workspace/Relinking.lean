import CrossReference.Proofs.Catalog.Accounting
import CrossReference.Proofs.Workspace.Sharing
import Mathlib.Data.List.Dedup

/-!
# Snapshots are freshly linked

A workspace links its catalog only when a snapshot is taken, and only if a flag says that clauses
have changed. Symbols decide what the clauses of other files mean, so the flag must be up whenever
any symbol has changed since the last linking. It is: every snapshot shows the graph that linking
from nothing would give now, whatever was linked before.

* `Catalog.origin_linkFresh` says that linking from nothing gives no edge without a file.
* `Catalog.UpToDate` says that a lowered flag can be trusted; `Workspace.Relinked` also keeps the
  order of the files. `Workspace.Relinked.respond` is the step lemma and `Workspace.relinked_after`
  the run lemma.
* `Workspace.snapshot_linked_afresh` draws the conclusion for every snapshot.
-/

namespace CrossReference

namespace Catalog

/-! ## Linking from nothing -/

/-- An edge that linking adds has an origin. -/
theorem origin_linkStep {resolve : Candidates → Option String} {linked : Graph × List Rejection}
    (hindexed : linked.1.Indexed) (h : ∀ e ∈ linked.1.edges, e.origin.isSome)
    (x : FileId × Clause) : ∀ e ∈ (linkStep resolve linked x).1.edges, e.origin.isSome := by
  rcases linkStep_cases hindexed x with ⟨_, heq⟩ | ⟨parent, _, ⟨_, heq⟩ | ⟨r, _, heq⟩⟩
  · rw [heq]
    exact h
  · rw [heq]
    intro e he
    rcases Graph.mem_or_eq_of_mem_edges_extend he with hold | rfl
    · exact h e hold
    · rfl
  · rw [heq]
    exact h

theorem origin_linkFresh (resolve : Candidates → Option String) (work : List (FileId × Clause)) :
    ∀ e ∈ (linkFresh resolve work).1.edges, e.origin.isSome := by
  induction work using List.reverseRecOn with
  | nil => exact fun e he => absurd he (Array.not_mem_empty e)
  | append_singleton work x ih =>
      have hindexed := (accounts_linkFresh resolve work).wellFormed.indexed
      unfold linkFresh
      rw [List.foldl_concat]
      exact origin_linkStep hindexed ih x

/-! ## The flag -/

/-- No edge was given directly, and a graph that is not stale is what linking from nothing gives. -/
structure UpToDate (c : Catalog) : Prop where
  origin : ∀ e ∈ c.graph.edges, e.origin.isSome
  fresh : c.stale = false → (c.graph, c.rejected) = linkFresh c.resolve? c.allClauses

theorem upToDate_empty : (∅ : Catalog).UpToDate where
  origin := fun e he => absurd he (Array.not_mem_empty e)
  fresh := fun _ => rfl

/-- A stale catalog can be trusted if nothing but its files stands behind its edges. -/
theorem UpToDate.of_stale {c c' : Catalog} (hc : c.UpToDate) (hgraph : c'.graph = c.graph)
    (hstale : c'.stale = true) : c'.UpToDate where
  origin := by
    rw [hgraph]
    exact hc.origin
  fresh := fun h => absurd (hstale.symm.trans h) (by simp)

theorem UpToDate.graph_unlinked {c : Catalog} (hc : c.UpToDate) : c.unlinked.graph = ∅ := by
  have hnone : c.graph.edges.toList.filter (·.origin.isNone) = [] := by
    rw [List.filter_eq_nil_iff]
    intro e he
    have hsome := hc.origin e (Array.mem_toList_iff.1 he)
    cases horigin : e.origin with
    | none => exact absurd hsome (by simp [horigin])
    | some file => simp
  unfold unlinked
  rw [hnone]
  rfl

/-- Linking gives what linking from nothing gives, whether or not there was anything to do. -/
theorem UpToDate.link_eq {c : Catalog} (hc : c.UpToDate) :
    (c.link.graph, c.link.rejected) = linkFresh c.resolve? c.allClauses := by
  unfold link
  cases hstale : c.stale with
  | false => exact hc.fresh hstale
  | true =>
      have hresolve : c.unlinked.resolve? = c.resolve? := resolve?_congr rfl
      have hall := c.unlinked.linkAll_eq c.allClauses
      rw [hresolve, hc.graph_unlinked] at hall
      exact hall

theorem UpToDate.link {c : Catalog} (hc : c.UpToDate) : c.link.UpToDate := by
  -- Neither symbols nor clauses change, so what linking gave is what it would give again.
  constructor
  · rw [show c.link.graph = (linkFresh c.resolve? c.allClauses).1 from congrArg Prod.fst hc.link_eq]
    exact origin_linkFresh _ _
  · intro _
    rw [resolve?_link, allClauses_link]
    exact hc.link_eq

/-- The clauses of the files, one file after the other. -/
theorem allClauses_eq (c : Catalog) :
    c.allClauses = c.clauses.keys.flatMap fun id =>
      ((c.clauses.find? id).getD []).map fun clause => (id, clause) := by
  unfold allClauses OrderedMap.keys
  rw [List.flatMap_map]
  refine List.flatMap_congr ?_
  intro entry hentry
  rw [OrderedMap.find?_of_mem_entries hentry]
  rfl

end Catalog

namespace Workspace

/-! ## The order of the files -/

/-- The file that a single change indexes. -/
def Effect.installed? : Effect → Option FileId
  | .installed id _ => some id
  | .removed _ => none

/-- The indexed files, in the order in which each was indexed last. -/
def byLastIndexing (files : OrderedMap FileId SourceFile) (log : List Effect) : List FileId :=
  ((log.filterMap Effect.installed?).dedup).filter files.contains

theorem dedup_concat (ids : List FileId) (id : FileId) :
    (ids ++ [id]).dedup = ids.dedup.filter (· ≠ id) ++ [id] := by
  induction ids with
  | nil => rfl
  | cons a ids ih =>
      rw [List.cons_append]
      by_cases ha : a ∈ ids
      · rw [List.dedup_cons_of_mem (List.mem_append_left _ ha), List.dedup_cons_of_mem ha, ih]
      · by_cases hid : a = id
        · subst hid
          rw [List.dedup_cons_of_mem (List.mem_append_right _ List.mem_cons_self),
            List.dedup_cons_of_notMem ha, ih]
          simp
        · rw [List.dedup_cons_of_notMem (by simp [ha, hid]), List.dedup_cons_of_notMem ha, ih]
          simp [hid]

theorem byLastIndexing_installed (files : OrderedMap FileId SourceFile) (log : List Effect)
    (id : FileId) (f : SourceFile) :
    byLastIndexing (files.insert id f) (log ++ [.installed id f]) =
      (byLastIndexing files log).filter (· ≠ id) ++ [id] := by
  have hnew : [Effect.installed id f].filterMap Effect.installed? = [id] := rfl
  unfold byLastIndexing
  rw [List.filterMap_append, hnew, dedup_concat, List.filter_append, List.filter_filter,
    List.filter_filter]
  congr 1
  · refine List.filter_congr ?_
    intro id' _
    rw [OrderedMap.contains_insert]
    by_cases hid : id' = id
    · simp [hid]
    · simp [hid]
  · simp [OrderedMap.contains_insert]

theorem byLastIndexing_removed (files : OrderedMap FileId SourceFile) (log : List Effect)
    (id : FileId) :
    byLastIndexing (files.erase id) (log ++ [.removed id]) =
      (byLastIndexing files log).filter (· ≠ id) := by
  have hnew : [Effect.removed id].filterMap Effect.installed? = [] := rfl
  unfold byLastIndexing
  rw [List.filterMap_append, hnew, List.append_nil, List.filter_filter]
  refine List.filter_congr ?_
  intro id' _
  rw [OrderedMap.contains_erase]
  by_cases hid : id' = id
  · simp [hid]
  · simp [hid]

/-! ## One call -/

/-- The catalog can be trusted, and its clauses stand in the order in which the files were last
indexed. -/
structure Relinked (w : Workspace) (log : List Effect) : Prop where
  upToDate : w.catalog.UpToDate
  contains : ∀ id, w.catalog.clauses.contains id = w.files.contains id
  keys : w.catalog.clauses.keys = byLastIndexing w.files log

theorem relinked_ofSettings (settings : Settings) : (ofSettings settings).Relinked [] where
  upToDate := ⟨Catalog.upToDate_empty.origin, fun _ => rfl⟩
  contains := fun _ => rfl
  keys := rfl

/-- Paths and settings do not matter. -/
theorem Relinked.congr {w w' : Workspace} {log : List Effect} (hw : w.Relinked log)
    (hcatalog : w'.catalog.UpToDate) (hfiles : w'.files = w.files)
    (hclauses : w'.catalog.clauses = w.catalog.clauses) : w'.Relinked log where
  upToDate := hcatalog
  contains := by
    rw [hclauses, hfiles]
    exact hw.contains
  keys := by
    rw [hclauses, hfiles]
    exact hw.keys

theorem Relinked.withRegistry {w : Workspace} {log : List Effect} (hw : w.Relinked log)
    (registry : Registry) : ({ w with registry := registry } : Workspace).Relinked log :=
  hw.congr hw.upToDate rfl rfl

/-- Whatever is found in a file, indexing it raises the flag and puts it last. -/
theorem Relinked.install {w : Workspace} {log : List Effect} (hw : w.Relinked log) (id : FileId)
    (f : SourceFile) (digest : String) (found : Option Declarations) :
    (w.install id f digest found).Relinked (log ++ [.installed id f]) := by
  obtain ⟨hgraph, hdeclared, _⟩ := frame_declareAll (w.catalog.removeFile id) id (found.getD {})
  have hfiles : (w.install id f digest found).files = w.files.insert id f := rfl
  have hclauses : (w.install id f digest found).catalog.clauses =
      (w.catalog.clauses.erase id).insert id (found.getD {}).clauses := hdeclared
  constructor
  case upToDate => exact hw.upToDate.of_stale hgraph rfl
  case contains =>
    intro id'
    rw [hfiles, hclauses, OrderedMap.contains_insert, OrderedMap.contains_insert,
      OrderedMap.contains_erase, hw.contains id']
    split
    · rfl
    · rfl
  case keys =>
    rw [hfiles, hclauses, OrderedMap.keys_insert_erase, hw.keys, byLastIndexing_installed]

/-- Removing an indexed file raises the flag, since each indexed file has clauses on record. -/
theorem Relinked.remove {w : Workspace} {log : List Effect} (hw : w.Relinked log) {id : FileId}
    (hid : w.files.contains id = true) :
    (w.perform (.removed id)).Relinked (log ++ [.removed id]) := by
  have hfiles : (w.perform (.removed id)).files = w.files.erase id := rfl
  have hclauses : (w.perform (.removed id)).catalog.clauses = w.catalog.clauses.erase id := rfl
  constructor
  case upToDate =>
    refine hw.upToDate.of_stale rfl ?_
    show (w.catalog.stale || w.catalog.clauses.contains id) = true
    rw [hw.contains id, hid, Bool.or_true]
  case contains =>
    intro id'
    rw [hfiles, hclauses, OrderedMap.contains_erase, OrderedMap.contains_erase, hw.contains id']
  case keys =>
    rw [hfiles, hclauses, OrderedMap.keys_erase, hw.keys, byLastIndexing_removed]

/-- The installations of a batch, whatever the store gives for its files. -/
theorem Relinked.foldl_install {start : Workspace} {log : List Effect} (hstart : start.Relinked log)
    (w : Workspace) (store : Option DeclarationStore) (batch : List (FileId × SourceFile)) :
    ((w.changes store batch).1.foldl (fun w c => w.install c.id c.file c.digest c.found)
      start).Relinked (log ++ w.installations batch) := by
  -- Whether a file is unchanged is judged in `w` throughout, while `start` moves on.
  induction batch generalizing start log store with
  | nil =>
      rw [show w.installations [] = [] from rfl, List.append_nil]
      exact hstart
  | cons x batch ih =>
      obtain ⟨id, f⟩ := x
      unfold changes installations
      cases hsame : w.isUnchanged id (Text.digest f.text) with
      | true =>
          rw [List.filter_cons_of_neg (by simp [hsame])]
          simp only [hsame, if_true]
          exact ih hstart store
      | false =>
          rw [List.filter_cons_of_pos (by simp [hsame]), List.map_cons, List.append_cons]
          simp only [hsame, Bool.false_eq_true, if_false, List.foldl_cons]
          exact ih (hstart.install id f _ _) _

/-- A single file is a batch of one, with a store as well. -/
theorem setFile_eq_changes (w : Workspace) (store : Option DeclarationStore) (f : SourceFile) :
    (w.setFile store f).2.1 =
      let start := w.prepare (.setFile f)
      (start.changes store [((w.registry.register f.path).1, f)]).1.foldl
        (fun w c => w.install c.id c.file c.digest c.found) start := by
  unfold setFile
  simp only [changes]
  split
  · rename_i hsame
    rw [show (w.prepare (.setFile f)).isUnchanged _ _ = true from hsame]
    rfl
  · rename_i hsame
    rw [show (w.prepare (.setFile f)).isUnchanged _ _ = false from Bool.eq_false_iff.2 hsame]
    rfl

theorem Relinked.respond {w : Workspace} {log : List Effect} (hw : w.Relinked log)
    (store : Option DeclarationStore) (c : Call) :
    (w.respond store c).2.1.Relinked (log ++ w.effects c) := by
  cases c with
  | setFile f =>
      show (w.setFile store f).2.1.Relinked _
      rw [setFile_eq_changes]
      exact (hw.withRegistry _).foldl_install _ store _
  | setFiles fs => exact (hw.withRegistry _).foldl_install _ store _
  | removeFile path =>
      show (w.removeFile store path).2.1.Relinked
        (log ++ ((w.registry.lookup? path).filter w.files.contains).toList.map .removed)
      unfold removeFile
      cases w.registry.lookup? path with
      | none => simpa using hw
      | some id =>
          cases hid : w.files.contains id with
          | true =>
              simp only [Option.filter, hid, if_true]
              exact hw.remove hid
          | false => simpa [hid, Option.filter] using hw
  | setSettings settings =>
      rw [show w.effects (.setSettings settings) = [] from rfl, List.append_nil]
      exact hw.congr ⟨hw.upToDate.origin, hw.upToDate.fresh⟩ rfl rfl
  | snapshot =>
      rw [show w.effects .snapshot = [] from rfl, List.append_nil]
      exact hw.congr hw.upToDate.link rfl w.catalog.clauses_link

/-! ## Every snapshot -/

/-- The workspace after calls, each with what the store holds then. Other workspaces may have used
the store in between. -/
def afterWith (settings : Settings) (calls : List (Option DeclarationStore × Call)) : Workspace :=
  calls.foldl (fun w x => (w.respond x.1 x.2).2.1) (ofSettings settings)

/-- All single changes that calls with a store make, in order. -/
def historyWith (w : Workspace) : List (Option DeclarationStore × Call) → List Effect
  | [] => []
  | (store, c) :: calls => w.effects c ++ (w.respond store c).2.1.historyWith calls

theorem Relinked.foldl_respond {w : Workspace} {log : List Effect} (hw : w.Relinked log)
    (calls : List (Option DeclarationStore × Call)) :
    (calls.foldl (fun w x => (w.respond x.1 x.2).2.1) w).Relinked (log ++ w.historyWith calls) := by
  induction calls generalizing w log with
  | nil => simpa [historyWith] using hw
  | cons x calls ih => simpa [historyWith] using ih (hw.respond x.1 x.2)

theorem relinked_after (settings : Settings) (calls : List (Option DeclarationStore × Call)) :
    (afterWith settings calls).Relinked ((ofSettings settings).historyWith calls) := by
  have hrun := (relinked_ofSettings settings).foldl_respond calls
  rw [List.nil_append] at hrun
  exact hrun

/-- After any calls, with or without a store, a snapshot has the graph and the refused clauses that
linking from nothing gives: the clauses of the indexed files, in the order in which the files were
indexed last, with their parents resolved among the symbols that there are now. -/
theorem snapshot_linked_afresh (settings : Settings)
    (calls : List (Option DeclarationStore × Call)) :
    let w := afterWith settings calls
    let order := byLastIndexing w.files ((ofSettings settings).historyWith calls)
    (∀ id, id ∈ order ↔ w.files.contains id = true) ∧
      (w.snapshot.catalog.graph, w.snapshot.catalog.rejected) =
        Catalog.linkFresh w.catalog.resolve? (order.flatMap fun id =>
          ((w.catalog.clauses.find? id).getD []).map fun clause => (id, clause)) := by
  intro w order
  have hw : w.Relinked _ := relinked_after settings calls
  have hkeys : w.catalog.clauses.keys = order := hw.keys
  refine ⟨?_, ?_⟩
  · intro id
    rw [← hkeys, ← hw.contains id, OrderedMap.mem_keys_iff]
  · rw [← hkeys, ← Catalog.allClauses_eq]
    exact hw.upToDate.link_eq

end Workspace
end CrossReference
