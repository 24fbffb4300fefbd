import CrossReference.Proofs.Catalog.Linking
import CrossReference.Proofs.Workspace.Batch
import CrossReference.Proofs.Workspace.Declared

/-!
# Files that are indexed one by one

What a new workspace holds after files with different paths were indexed, one after the other, in
terms of the list of files alone: `Workspace.Holds`. The step lemma is `Workspace.Holds.setFile`,
and `Workspace.holds_after` draws the conclusion for a whole list.
-/

namespace CrossReference

/-- The symbols that a file declares, without its number. -/
def SourceFile.symbols (f : SourceFile) : List Symbol :=
  (f.declarations default).symbols

/-- The supertype clauses of a file. -/
def SourceFile.clauses (f : SourceFile) : List Clause :=
  (f.declarations default).clauses

/-- A file declares the same under every number. -/
theorem SourceFile.declarations_eq (f : SourceFile) (id : FileId) :
    f.declarations id = { symbols := f.symbols.map (Symbol.inFile id), clauses := f.clauses } := by
  unfold SourceFile.symbols SourceFile.clauses SourceFile.declarations
  cases f.tree with
  | none => rfl
  | some stmts => exact Declarations.collect_eq_inFile id default _ stmts

/-- The symbols of a file with one key, in order. -/
def SourceFile.symbolsWith (key : SymbolKey) (f : SourceFile) : List Symbol :=
  f.symbols.filter (·.key = key)

theorem Catalog.find?_foldl_declare (c : Catalog) (id : FileId) (symbols : List Symbol)
    (key : SymbolKey) :
    (symbols.foldl (fun c s => c.declare { s with file := id }) c).symbols.find? key =
      ((symbols.filter (·.key = key)).getLast?.map (Symbol.inFile id)).or
        (c.symbols.find? key) := by
  induction symbols using List.reverseRecOn with
  | nil => rfl
  | append_singleton symbols s ih =>
      rw [List.foldl_append, List.foldl_cons, List.foldl_nil, find?_declare, List.filter_append]
      change (if key = s.key then some (s.inFile id) else _) = _
      by_cases hkey : key = s.key
      · simp [hkey]
      · rw [if_neg hkey, ih]
        simp [Ne.symm hkey]

namespace Workspace

/-- Declaring what a file declares touches neither the graph nor the limit, and of the clauses only
those of the file. -/
theorem frame_declareAll (c : Catalog) (id : FileId) (found : Declarations) :
    (declareAll c id found).graph = c.graph ∧
      (declareAll c id found).clauses = c.clauses.insert id found.clauses ∧
        (declareAll c id found).ancestorLimit = c.ancestorLimit := by
  have hfold : ∀ symbols : List Symbol,
      let c' := symbols.foldl (fun c s => c.declare { s with file := id }) c
      c'.graph = c.graph ∧ c'.clauses = c.clauses ∧ c'.ancestorLimit = c.ancestorLimit := by
    intro symbols
    induction symbols generalizing c with
    | nil => exact ⟨rfl, rfl, rfl⟩
    | cons s symbols ih => exact ih (c.declare { s with file := id })
  obtain ⟨hgraph, hclauses, hlimit⟩ := hfold found.symbols
  exact ⟨hgraph, congrArg (OrderedMap.insert · id found.clauses) hclauses, hlimit⟩

/-- A list of contents of files, with the number that each file has. -/
def numbering {α : Type} (contents : List α) : List (FileId × α) :=
  contents.zipIdx.map fun (content, i) => (⟨i⟩, content)

theorem numbering_concat {α : Type} (contents : List α) (content : α) :
    numbering (contents ++ [content]) = numbering contents ++ [(⟨contents.length⟩, content)] := by
  simp [numbering, List.zipIdx_append]

theorem map_snd_numbering {α : Type} (contents : List α) :
    (numbering contents).map Prod.snd = contents := by
  unfold numbering
  rw [List.map_map]
  exact List.zipIdx_map_fst 0 contents

theorem index_lt_of_mem_numbering {α : Type} {contents : List α} {x : FileId × α}
    (h : x ∈ numbering contents) : x.1.index < contents.length := by
  obtain ⟨⟨content, i⟩, hmem, rfl⟩ := List.mem_map.1 h
  obtain ⟨_, hlt, _⟩ := List.mem_zipIdx hmem
  simpa using hlt

/-- What a workspace holds after the files of a list were indexed for the first time. -/
structure Holds (w : Workspace) (settings : Settings) (files : List SourceFile) : Prop where
  settings_eq : w.settings = settings
  paths : w.registry.paths = files.map SourceFile.path
  entries : w.files.entries = numbering files
  clauses : w.catalog.clauses.entries = numbering (files.map SourceFile.clauses)
  /-- Of the symbols with one key the last is kept. -/
  find? : ∀ key, (w.catalog.symbols.find? key).map Symbol.placeless =
    (files.flatMap (SourceFile.symbolsWith key)).getLast?.map Symbol.placeless
  index_lt : ∀ key s, w.catalog.symbols.find? key = some s → s.file.index < files.length
  owned : w.catalog.Owned
  graph : w.catalog.graph = ∅
  stale : files ≠ [] → w.catalog.stale = true
  ancestorLimit : w.catalog.ancestorLimit = max settings.maxAncestors 1

theorem holds_ofSettings (settings : Settings) : (ofSettings settings).Holds settings [] where
  settings_eq := rfl
  paths := rfl
  entries := rfl
  clauses := rfl
  find? := fun _ => rfl
  index_lt := fun _ _ h => absurd h (by simp [ofSettings, Catalog.setAncestorLimit,
    show (∅ : Catalog).symbols = OrderedMap.empty from rfl])
  owned := Catalog.owned_empty.congr rfl rfl
  graph := rfl
  stale := fun h => absurd rfl h
  ancestorLimit := rfl

/-- A new path gets the next number, so its file is installed. -/
theorem Holds.setFile_eq_installed {w : Workspace} {settings : Settings} {files : List SourceFile}
    (hw : w.Holds settings files) {f : SourceFile} (hnew : f.path ∉ files.map SourceFile.path) :
    (w.setFile none f).2.1 =
      (w.withPaths ((files ++ [f]).map SourceFile.path)).perform
        (.installed ⟨files.length⟩ f) := by
  have hpaths : Registry.addPath w.registry.paths f.path = (files ++ [f]).map SourceFile.path := by
    unfold Registry.addPath
    rw [hw.paths, if_neg hnew, List.map_append]
    rfl
  have hnumber : (numbered ((files ++ [f]).map SourceFile.path) f) = (⟨files.length⟩, f) := by
    unfold numbered
    rw [List.map_append, List.map_singleton, List.idxOf_append_of_notMem hnew]
    simp
  have hfresh : w.files.contains ⟨files.length⟩ = false := by
    rw [← Bool.not_eq_true, OrderedMap.contains_iff]
    rintro ⟨g, hg⟩
    have hmem := OrderedMap.mem_entries_of_find? hg
    rw [hw.entries] at hmem
    exact absurd (index_lt_of_mem_numbering hmem) (Nat.lt_irrefl _)
  rw [setFile_eq, hpaths, hnumber]
  unfold step
  rw [if_neg]
  rw [isUnchanged_iff]
  rintro ⟨hcontains, _⟩
  exact absurd (hfresh.symm.trans hcontains) (by simp)

theorem not_mem_keys {α : Type} {m : OrderedMap FileId α} {contents : List α}
    (h : m.entries = numbering contents) : ⟨contents.length⟩ ∉ m.keys := by
  unfold OrderedMap.keys
  rw [h]
  intro hmem
  obtain ⟨x, hx, hid⟩ := List.mem_map.1 hmem
  have hlt := index_lt_of_mem_numbering hx
  rw [hid] at hlt
  exact absurd hlt (Nat.lt_irrefl _)

/-- A file whose number is new adds its symbols to those that are there. -/
theorem Holds.find?_installed {w : Workspace} {settings : Settings} {files : List SourceFile}
    (hw : w.Holds settings files) (f : SourceFile) (key : SymbolKey) :
    (w.perform (.installed ⟨files.length⟩ f)).catalog.symbols.find? key =
      ((f.symbolsWith key).getLast?.map (Symbol.inFile ⟨files.length⟩)).or
        (w.catalog.symbols.find? key) := by
  let id : FileId := ⟨files.length⟩
  -- No symbol has the new number, so nothing is removed before the file is declared.
  have hrest : (w.catalog.removeFile id).symbols.find? key = w.catalog.symbols.find? key := by
    rw [hw.owned.find?_removeFile]
    cases hs : w.catalog.symbols.find? key with
    | none => rfl
    | some s =>
        have hlt := hw.index_lt key s hs
        have hne : s.file ≠ id := by
          intro h
          rw [h] at hlt
          exact absurd hlt (Nat.lt_irrefl _)
        simp [hne]
  have hfind := Catalog.find?_foldl_declare (w.catalog.removeFile id) id (f.declarations id).symbols
    key
  have hsymbols : ((f.declarations id).symbols.filter (·.key = key)).getLast?.map
      (Symbol.inFile id) = (f.symbolsWith key).getLast?.map (Symbol.inFile id) := by
    rw [f.declarations_eq]
    unfold SourceFile.symbolsWith
    rw [List.filter_map, List.getLast?_map, Option.map_map]
    rfl
  rw [hsymbols, hrest] at hfind
  exact hfind

/-- One more file with a new path. -/
theorem Holds.setFile {w : Workspace} {settings : Settings} {files : List SourceFile}
    (hw : w.Holds settings files) {f : SourceFile} (hnew : f.path ∉ files.map SourceFile.path) :
    (w.setFile none f).2.1.Holds settings (files ++ [f]) := by
  rw [hw.setFile_eq_installed hnew]
  have hfind := hw.find?_installed f
  obtain ⟨hgraph, hclauses, hlimit⟩ := frame_declareAll (w.catalog.removeFile ⟨files.length⟩)
    ⟨files.length⟩ (f.declarations ⟨files.length⟩)
  constructor
  case settings_eq => exact hw.settings_eq
  case paths => rfl
  case entries =>
    rw [numbering_concat, ← hw.entries]
    exact OrderedMap.entries_insert_of_new (not_mem_keys hw.entries) f
  case clauses =>
    have hlist : numbering ((files ++ [f]).map SourceFile.clauses) =
        w.catalog.clauses.entries ++ [(⟨files.length⟩, f.clauses)] := by
      rw [List.map_append, List.map_singleton, numbering_concat, List.length_map, hw.clauses]
    have hkeys : (⟨files.length⟩ : FileId) ∉ w.catalog.clauses.keys := by
      have hlength := not_mem_keys hw.clauses
      rwa [List.length_map] at hlength
    rw [hlist]
    refine (congrArg OrderedMap.entries hclauses).trans ?_
    rw [f.declarations_eq]
    exact OrderedMap.entries_insert_erase_of_new hkeys f.clauses
  case find? =>
    intro key
    rw [List.flatMap_append, List.flatMap_singleton, List.getLast?_append, Option.map_or,
      ← hw.find? key]
    refine (congrArg (Option.map Symbol.placeless) (hfind key)).trans ?_
    rw [Option.map_or, Option.map_map]
    rfl
  case index_lt =>
    intro key s hs
    rw [List.length_append, List.length_singleton]
    have hsource := (hfind key).symm.trans hs
    rcases Option.or_eq_some_iff.1 hsource with hown | ⟨_, hold⟩
    · obtain ⟨s', _, rfl⟩ := Option.map_eq_some_iff.1 hown
      exact Nat.lt_succ_self _
    · exact Nat.lt_succ_of_lt (hw.index_lt key s hold)
  case owned =>
    exact (owned_foldl_declare (hw.owned.removeFile _) _ _).congr rfl rfl
  case graph => exact hgraph.trans hw.graph
  case stale => exact fun _ => rfl
  case ancestorLimit => exact hlimit.trans hw.ancestorLimit

/-- The files of a list with different paths, indexed one after the other. -/
theorem holds_after (settings : Settings) {files : List SourceFile}
    (h : (files.map SourceFile.path).Nodup) :
    (after settings (files.map .setFile)).Holds settings files := by
  induction files using List.reverseRecOn with
  | nil => exact holds_ofSettings settings
  | append_singleton files f ih =>
      rw [List.map_append, List.nodup_append] at h
      have hnew : f.path ∉ files.map SourceFile.path :=
        fun hmem => h.2.2 _ hmem _ (by simp) rfl
      unfold after at ih ⊢
      rw [List.map_append, List.foldl_append]
      exact (ih h.1).setFile hnew

end Workspace
end CrossReference
