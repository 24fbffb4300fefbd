import CrossReference.Proofs.Workspace.Contents

/-!
# Records and indexed files

A workspace keeps four records of its files: the files themselves, the digests of the registry, the
clauses of the catalog, and its symbols. They are updated apart from each other, and yet they always
agree: nothing is recorded of a file that is not indexed, and what is recorded of an indexed file
comes from the contents that it is indexed with.

* `Workspace.Consistent` is the invariant. `Workspace.Consistent.perform` is the step lemma and
  `Workspace.consistent_after` the run lemma.
* `Workspace.records_match_indexed_files` spells it out for every workspace.
-/

namespace CrossReference

namespace Registry

/-- A path keeps its number when others are added. -/
theorem lookup?_of_isPrefix {r r' : Registry} (h : r.paths <+: r'.paths) {path : String}
    {id : FileId} (hid : r.lookup? path = some id) : r'.lookup? path = some id := by
  rw [lookup?_eq] at hid ⊢
  split at hid
  · rename_i hmem
    rw [if_pos (h.subset hmem), idxOf_of_isPrefix h hmem]
    exact hid
  · exact absurd hid (by simp)

/-- A number that a path has leads back to the path. -/
theorem path?_of_lookup? {r : Registry} {path : String} {id : FileId}
    (h : r.lookup? path = some id) : r.path? id = some path := by
  rw [lookup?_eq] at h
  split at h
  · rename_i hmem
    rw [← Option.some.inj h]
    exact List.getElem?_idxOf hmem
  · exact absurd h (by simp)

end Registry

namespace Workspace

open CrossReference.Registry

/-- What is recorded of files is what the indexed files say. -/
structure Consistent (w : Workspace) : Prop where
  lookup? : ∀ id f, w.files.find? id = some f → w.registry.lookup? f.path = some id
  digest? : ∀ id, w.registry.digest? id = (w.files.find? id).map fun f => Text.digest f.text
  clauses : ∀ id, w.catalog.clauses.find? id =
    (w.files.find? id).map fun f => (f.declarations id).clauses
  owned : w.catalog.Owned
  symbols : ∀ key s, w.catalog.symbols.find? key = some s →
    ∃ f, w.files.find? s.file = some f ∧ s ∈ (f.declarations s.file).symbols

theorem consistent_ofSettings (settings : Settings) : (ofSettings settings).Consistent where
  lookup? := fun _ _ h => absurd h (by simp [ofSettings,
    show (∅ : OrderedMap FileId SourceFile) = OrderedMap.empty from rfl])
  digest? := fun _ => rfl
  clauses := fun _ => rfl
  owned := Catalog.owned_empty.congr rfl rfl
  symbols := fun _ _ h => absurd h (by simp [ofSettings, Catalog.setAncestorLimit,
    show (∅ : Catalog).symbols = OrderedMap.empty from rfl])

/-! ## Before the first file is touched -/

/-- New paths, links and settings do not matter. -/
theorem Consistent.congr {w w' : Workspace} (hw : w.Consistent) (hfiles : w'.files = w.files)
    (hpaths : w.registry.paths <+: w'.registry.paths)
    (hdigests : w'.registry.digests = w.registry.digests)
    (hclauses : w'.catalog.clauses = w.catalog.clauses)
    (hsymbols : w'.catalog.symbols = w.catalog.symbols)
    (howners : w'.catalog.declaredBy = w.catalog.declaredBy) : w'.Consistent where
  lookup? := by
    intro id f hf
    rw [hfiles] at hf
    exact lookup?_of_isPrefix hpaths (hw.lookup? id f hf)
  digest? := by
    intro id
    rw [hfiles, ← hw.digest? id]
    unfold Registry.digest?
    rw [hdigests]
  clauses := by
    intro id
    rw [hclauses, hfiles]
    exact hw.clauses id
  owned := hw.owned.congr hsymbols howners
  symbols := by
    intro key s hs
    rw [hsymbols] at hs
    rw [hfiles]
    exact hw.symbols key s hs

theorem Consistent.prepare {w : Workspace} (hw : w.Consistent) (c : Call) :
    (w.prepare c).Consistent := by
  cases c with
  | setFile f =>
      refine hw.congr rfl ?_ ?_ rfl rfl rfl
      · simp only [Workspace.prepare, register_eq]
        exact prefix_addPath _ _
      · simp only [Workspace.prepare, register_eq]
  | setFiles fs =>
      refine hw.congr rfl ?_ ?_ rfl rfl rfl
      · simp only [Workspace.prepare, registerAll_eq]
        exact prefix_addPaths _ _
      · simp only [Workspace.prepare, registerAll_eq]
  | removeFile path => exact hw
  | setSettings settings => exact hw.congr rfl List.prefix_rfl rfl rfl rfl rfl
  | snapshot =>
      obtain ⟨hsymbols, howners⟩ := w.catalog.symbols_link
      exact hw.congr rfl List.prefix_rfl rfl w.catalog.clauses_link hsymbols howners

/-! ## Single changes -/

/-- A single change that gives a file no other number than that of its path. -/
def Effect.Numbered (r : Registry) : Effect → Prop
  | .installed id f => r.lookup? f.path = some id
  | .removed _ => True

theorem lookup?_numbered {paths : List String} {digests : OrderedMap FileId String} {f : SourceFile}
    (h : f.path ∈ paths) :
    (⟨paths, digests⟩ : Registry).lookup? f.path = some (numbered paths f).1 := by
  rw [lookup?_eq, if_pos h]
  rfl

/-- The files of a batch are installed under the numbers of their paths. -/
theorem numbered_of_mem_effects {w : Workspace} {c : Call} {e : Effect} (he : e ∈ w.effects c) :
    e.Numbered (w.prepare c).registry := by
  cases c with
  | setFile f =>
      simp only [effects, installations, List.mem_map, List.mem_filter, List.mem_singleton] at he
      obtain ⟨x, ⟨rfl, _⟩, rfl⟩ := he
      simp only [Effect.Numbered, Workspace.prepare, register_eq]
      exact lookup?_numbered (mem_addPath _ _)
  | setFiles fs =>
      simp only [effects, installations, zip_registerAll, List.mem_map, List.mem_filter] at he
      obtain ⟨x, ⟨⟨f, hf, rfl⟩, _⟩, rfl⟩ := he
      simp only [Effect.Numbered, Workspace.prepare, registerAll_eq]
      exact lookup?_numbered (mem_addPaths hf)
  | removeFile path =>
      obtain ⟨id, _, rfl⟩ := List.mem_map.1 he
      trivial
  | setSettings settings => exact absurd he List.not_mem_nil
  | snapshot => exact absurd he List.not_mem_nil

theorem Consistent.installed {w : Workspace} (hw : w.Consistent) {id : FileId} {f : SourceFile}
    (hid : w.registry.lookup? f.path = some id) : (w.perform (.installed id f)).Consistent := by
  have hfiles : ∀ id', (w.perform (.installed id f)).files.find? id' =
      if id' = id then some f else w.files.find? id' := fun id' => OrderedMap.find?_insert _ _ _ _
  obtain ⟨_, hclauses, _⟩ :=
    frame_declareAll (w.catalog.removeFile id) id (f.declarations id)
  constructor
  case lookup? =>
    intro id' g hg
    rw [hfiles] at hg
    show w.registry.lookup? g.path = some id'
    split at hg
    · rename_i heq
      rw [← Option.some.inj hg, heq]
      exact hid
    · exact hw.lookup? id' g hg
  case digest? =>
    intro id'
    rw [hfiles, digest?_installed, hw.digest? id']
    split
    · rfl
    · rfl
  case clauses =>
    intro id'
    refine (congrArg (OrderedMap.find? · id') hclauses).trans ?_
    show ((w.catalog.clauses.erase id).insert id (f.declarations id).clauses).find? id' = _
    rw [OrderedMap.find?_insert, OrderedMap.find?_erase, hfiles, hw.clauses id']
    split
    · rename_i heq
      rw [heq]
      rfl
    · rfl
  case owned => exact (owned_foldl_declare (hw.owned.removeFile id) id _).congr rfl rfl
  case symbols =>
    intro key s hs
    have hsource := (Catalog.find?_foldl_declare (w.catalog.removeFile id) id
      (f.declarations id).symbols key).symm.trans hs
    rw [hw.owned.find?_removeFile] at hsource
    rcases Option.or_eq_some_iff.1 hsource with hown | ⟨_, hold⟩
    · -- The symbol is one of the new contents, which carry the number of the file already.
      obtain ⟨s', hs', rfl⟩ := Option.map_eq_some_iff.1 hown
      have hmem : s' ∈ (f.declarations id).symbols :=
        (List.mem_filter.1 (List.mem_of_getLast? hs')).1
      have hsame : s'.inFile id = s' := by
        rw [f.declarations_eq] at hmem
        obtain ⟨s'', _, rfl⟩ := List.mem_map.1 hmem
        rfl
      refine ⟨f, ?_, ?_⟩
      · rw [hfiles]
        exact if_pos rfl
      · rw [hsame] at hs ⊢
        have hfile : s'.file = id := by rw [← hsame]; rfl
        rw [hfile]
        exact hmem
    · -- A symbol that was not the file's own still belongs to another file.
      obtain ⟨hfind, hne⟩ := Option.filter_eq_some_iff.1 hold
      obtain ⟨g, hg, hmem⟩ := hw.symbols key s hfind
      refine ⟨g, ?_, hmem⟩
      rw [hfiles, if_neg (by simpa using hne)]
      exact hg

theorem Consistent.removed {w : Workspace} (hw : w.Consistent) (id : FileId) :
    (w.perform (.removed id)).Consistent := by
  have hfiles : ∀ id', (w.perform (.removed id)).files.find? id' =
      if id' = id then none else w.files.find? id' := fun id' => OrderedMap.find?_erase _ _ _
  constructor
  case lookup? =>
    intro id' f hf
    exact hw.lookup? id' f (OrderedMap.find?_of_find?_erase hf)
  case digest? =>
    intro id'
    show (w.registry.digests.erase id).find? id' = _
    rw [hfiles, OrderedMap.find?_erase]
    split
    · rfl
    · exact hw.digest? id'
  case clauses =>
    intro id'
    show (w.catalog.clauses.erase id).find? id' = _
    rw [hfiles, OrderedMap.find?_erase]
    split
    · rfl
    · exact hw.clauses id'
  case owned => exact hw.owned.removeFile id
  case symbols =>
    intro key s hs
    have hrest := (hw.owned.find?_removeFile id key).symm.trans hs
    obtain ⟨hfind, hne⟩ := Option.filter_eq_some_iff.1 hrest
    obtain ⟨f, hf, hmem⟩ := hw.symbols key s hfind
    refine ⟨f, ?_, hmem⟩
    rw [hfiles, if_neg (by simpa using hne)]
    exact hf

/-- One change keeps the records consistent. -/
theorem Consistent.perform {w : Workspace} (hw : w.Consistent) {e : Effect}
    (he : e.Numbered w.registry) : (w.perform e).Consistent := by
  cases e with
  | installed id f => exact hw.installed he
  | removed id => exact hw.removed id

theorem Effect.Numbered.perform {w : Workspace} {e : Effect} (he : e.Numbered w.registry)
    (e' : Effect) : e.Numbered (w.perform e').registry := by
  -- No single change touches the paths.
  cases e' with
  | installed id f => cases e with
      | installed id' f' => exact he
      | removed id' => trivial
  | removed id => cases e with
      | installed id' f' => exact he
      | removed id' => trivial

theorem Consistent.foldl_perform {w : Workspace} (hw : w.Consistent) {es : List Effect}
    (hes : ∀ e ∈ es, e.Numbered w.registry) : (es.foldl Workspace.perform w).Consistent := by
  induction es generalizing w with
  | nil => exact hw
  | cons e es ih =>
      rw [List.forall_mem_cons] at hes
      exact ih (hw.perform hes.1) fun e' he' => (hes.2 e' he').perform e

/-! ## Every workspace -/

theorem Consistent.call {w : Workspace} (hw : w.Consistent) (c : Call) : (w.call c).Consistent := by
  rw [call_eq_foldl_perform]
  exact (hw.prepare c).foldl_perform fun _ => numbered_of_mem_effects

theorem consistent_after (settings : Settings) (calls : List Call) :
    (after settings calls).Consistent := by
  have hstart := consistent_ofSettings settings
  unfold after
  generalize ofSettings settings = w at hstart
  induction calls generalizing w with
  | nil => exact hstart
  | cons c calls ih => exact ih _ (hstart.call c)

/-- After any calls a digest and clauses are recorded for exactly the indexed files. An indexed file
has the number of its path, the digest of its text, and the clauses that its tree declares. Every
symbol is one that the tree of an indexed file declares, and carries the number of that file. -/
theorem records_match_indexed_files (settings : Settings) (calls : List Call) :
    let w := after settings calls
    (∀ id, w.registry.digests.contains id = w.files.contains id ∧
      w.catalog.clauses.contains id = w.files.contains id) ∧
    (∀ id f, w.files.find? id = some f →
      w.registry.path? id = some f.path ∧ w.registry.lookup? f.path = some id ∧
      w.registry.digest? id = some (Text.digest f.text) ∧
      w.catalog.clauses.find? id = some (match f.tree with
        | none => []
        | some stmts => (Declarations.collect id (.ofText f.text) stmts).clauses)) ∧
    ∀ s ∈ w.catalog.symbols.values, ∃ f stmts,
      w.files.find? s.file = some f ∧ f.tree = some stmts ∧
      s ∈ (Declarations.collect s.file (.ofText f.text) stmts).symbols := by
  intro w
  have hw : w.Consistent := consistent_after settings calls
  refine ⟨?_, ?_, ?_⟩
  · intro id
    have hdigest : w.registry.digests.find? id = _ := hw.digest? id
    unfold OrderedMap.contains
    rw [hdigest, hw.clauses id, Option.isSome_map, Option.isSome_map]
    exact ⟨rfl, rfl⟩
  · intro id f hf
    have hid := hw.lookup? id f hf
    refine ⟨path?_of_lookup? hid, hid, ?_, ?_⟩
    · rw [hw.digest? id, hf]
      rfl
    · rw [hw.clauses id, hf, Option.map_some]
      unfold SourceFile.declarations
      cases f.tree with
      | none => rfl
      | some stmts => rfl
  · intro s hs
    obtain ⟨key, hkey⟩ := OrderedMap.mem_values_iff.1 hs
    obtain ⟨f, hf, hmem⟩ := hw.symbols key s hkey
    unfold SourceFile.declarations at hmem
    cases htree : f.tree with
    | none =>
        rw [htree] at hmem
        exact absurd hmem List.not_mem_nil
    | some stmts =>
        rw [htree] at hmem
        exact ⟨f, stmts, hf, htree, hmem⟩

end Workspace
end CrossReference
