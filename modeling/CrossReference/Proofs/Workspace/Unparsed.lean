import CrossReference.Proofs.Workspace.Filing
import CrossReference.Proofs.Workspace.Reordering

/-!
# Files that could not be parsed

A file without a tree declares nothing and has no usages. Indexing it gives it a number, adds an
empty list of clauses, and has everything linked again; a search looks at its text and reports why
it has no tree. Nothing of that changes what is found in the other files, unless the text of the
file alone decides that case matters.

* `Catalog.UpToDate.file_of_mem_rejected` says that only clauses of indexed files are refused.
* `Snapshot.Extends` relates the two views. `Snapshot.Extends.searchQuery` compares the searches.
* `Workspace.extends_withUnparsed` shows that indexing the file leads from the one view to the
  other.
* `Workspace.unparsed_file_only_reported` puts them together.
-/

namespace CrossReference

/-! ## Refused clauses -/

namespace Catalog

/-- A clause that linking refuses belongs to a file with clauses on record. -/
theorem UpToDate.file_of_mem_rejected {c : Catalog} (hc : c.UpToDate) {r : Rejection}
    (h : r ∈ c.link.rejected) : c.clauses.contains r.file = true := by
  have hlink : c.link.rejected = (linkFresh c.resolve? c.allClauses).2 :=
    congrArg Prod.snd hc.link_eq
  rw [hlink, (accounts_linkFresh c.resolve? c.allClauses).rejected] at h
  obtain ⟨x, hx, hrefusal⟩ := List.mem_filterMap.1 h
  obtain ⟨entry, hentry, hmem⟩ := List.mem_flatMap.1 hx
  obtain ⟨clause, _, rfl⟩ := List.mem_map.1 hmem
  rw [file_of_refusal? hrefusal, OrderedMap.contains_iff]
  exact ⟨entry.2, OrderedMap.find?_of_mem_entries hentry⟩

end Catalog

/-! ## The choice of files -/

/-- Whether the texts of the files are compared with a query in any case. -/
def Query.ignoresCase : Query → Bool
  | .type _ => true
  | .function _ => true
  | .member _ _ kind => kind = .method
  | .constant _ => false

namespace Patterns

/-- What the first look finds matters only to the second look, which ignores case. -/
theorem keeps_of_single_look {p : Patterns} {fallback : Bool}
    (h : p.isVacuous = true ∨ p.ignoreCase = true ∨ fallback = false) (found found' : Bool)
    (text : String) : p.keeps fallback found text = p.keeps fallback found' text := by
  unfold keeps
  rcases h with hvacuous | hcase | hfallback
  · rw [hvacuous, Bool.true_or, Bool.true_or]
  · rw [hcase, Bool.true_or, Bool.true_or]
  · rw [hfallback, Bool.and_false, Bool.and_false]

theorem ignoreCase_ofQuery {query : Query} (h : query.ignoresCase = true) (settings : Settings) :
    (ofQuery settings query).isVacuous = true ∨ (ofQuery settings query).ignoreCase = true := by
  cases query with
  | type name => exact .inr rfl
  | function name => exact .inr rfl
  | constant name => exact absurd h (by simp [Query.ignoresCase])
  | member owner name kind =>
      by_cases hnew : Name.isConstructor name = true
      · exact .inl (by simp [ofQuery, hnew, isVacuous])
      · exact .inr (by simpa [ofQuery, hnew, Query.ignoresCase] using h)

end Patterns

/-! ## One more file in view -/

namespace Snapshot

/-- The second view has one more file, which has no tree and a path of its own. -/
structure Extends (s s' : Snapshot) (f : SourceFile) : Prop where
  values : s'.files.values = s.files.values ++ [f]
  unparsed : f.tree = none
  paths : ∀ g ∈ s.files.values, g.path ≠ f.path
  catalog : s.catalog.Agrees s'.catalog
  settings : s.settings = s'.settings
  rejected : s'.catalog.rejected.map s'.rejectionProblem = s.catalog.rejected.map s.rejectionProblem
  elsewhere : ∀ d ∈ s.catalog.rejected.map s.rejectionProblem, d.file ≠ some f.path

namespace Extends

variable {s s' : Snapshot} {f : SourceFile} {query : Query}

/-- Whether a file is searched does not depend on the texts of others, if case does not matter or
there is no second look. -/
theorem isSearched (h : s.Extends s' f)
    (hquery : query.ignoresCase = true ∨ s.settings.caseFallback = false) :
    s.isSearched query = s'.isSearched query := by
  have hlook : (Patterns.ofQuery s.settings query).isVacuous = true ∨
      (Patterns.ofQuery s.settings query).ignoreCase = true ∨ s.settings.caseFallback = false := by
    rcases hquery with hquery | hfallback
    · exact (Patterns.ignoreCase_ofQuery hquery s.settings).imp_right .inl
    · exact .inr (.inr hfallback)
  funext g
  unfold Snapshot.isSearched
  rw [← h.settings]
  exact Patterns.keeps_of_single_look hlook _ _ g.text

theorem flatMap_searchCandidates (h : s.Extends s' f)
    (hquery : query.ignoresCase = true ∨ s.settings.caseFallback = false) {α : Type}
    (part : SearchResult → List α) (hpart : part {} = []) :
    (s'.searchCandidates query).flatMap part = (s.searchCandidates query).flatMap part := by
  have hfile : s.searchFile query = s'.searchFile query :=
    funext (searchFile_eq_of_agrees h.catalog h.settings query)
  have hnone : s'.searchFile query f = {} := by
    unfold Snapshot.searchFile
    rw [h.unparsed]
  rw [searchCandidates_eq, searchCandidates_eq, h.isSearched hquery, hfile, h.values,
    List.filter_append, List.map_append, List.flatMap_append]
  cases hf : s'.isSearched query f with
  | true => simp [hf, hnone, hpart]
  | false => simp [hf]

/-- Nothing that is reported of the other files is attributed to the path of the new one. -/
theorem file_ne (h : s.Extends s' f) (query : Query) {d : Diagnostic}
    (hd : d ∈ s.files.values.flatMap parseProblems ++ (s.catalog.rejected.map s.rejectionProblem ++
      s.ancestorProblems query ++ (s.searchCandidates query).flatMap SearchResult.diagnostics)) :
    d.file ≠ some f.path := by
  have hother : ∀ g ∈ s.files.values, some g.path ≠ some f.path := fun g hg =>
    mt Option.some.inj (h.paths g hg)
  simp only [List.mem_append] at hd
  rcases hd with hparse | (hrejected | hancestors) | hresults
  · obtain ⟨g, hg, hd⟩ := List.mem_flatMap.1 hparse
    rw [file_of_mem_parseProblems hd]
    exact hother g hg
  · exact h.elsewhere d hrejected
  · -- What is said of the ancestors of a type is said of no file.
    have hnone : d.file = none := by
      cases query with
      | member owner name kind =>
          unfold Snapshot.ancestorProblems at hancestors
          simp only at hancestors
          split at hancestors
          · rw [List.mem_singleton.1 hancestors]
            rfl
          · exact absurd hancestors List.not_mem_nil
      | type name => exact absurd hancestors List.not_mem_nil
      | function name => exact absurd hancestors List.not_mem_nil
      | constant name => exact absurd hancestors List.not_mem_nil
    simp [hnone]
  · rw [searchCandidates_eq, List.flatMap_map] at hresults
    obtain ⟨g, hg, hd⟩ := List.mem_flatMap.1 hresults
    rw [file_of_mem_diagnostics hd]
    exact hother g (List.mem_filter.1 hg).1

/-- The search finds the same, and reports in addition what is wrong with the new file. -/
theorem searchQuery (h : s.Extends s' f)
    (hquery : query.ignoresCase = true ∨ s.settings.caseFallback = false) :
    ∃ usages before after,
      s.searchQuery query s.indexProblems = ⟨usages, before ++ after⟩ ∧
      s'.searchQuery query s'.indexProblems =
        ⟨usages, before ++ Diagnostic.summary (parseProblems f) ++ after⟩ := by
  have husages := h.flatMap_searchCandidates hquery SearchResult.usages rfl
  have hproblems := h.flatMap_searchCandidates hquery SearchResult.diagnostics rfl
  obtain ⟨before, after, hsummary, hsummary'⟩ := Diagnostic.summary_with_file
    (fun d hd => file_of_mem_parseProblems (f := f) hd) (fun d hd => h.file_ne query hd)
  refine ⟨ScoredUsage.rank ((s.searchCandidates query).flatMap SearchResult.usages), before, after,
    ?_, ?_⟩
  · simp only [Snapshot.searchQuery, indexProblems, ← hsummary, List.append_assoc]
  · simp only [Snapshot.searchQuery, indexProblems, husages, hproblems, h.values, h.rejected,
      ← ancestorProblems_eq_of_agrees h.catalog query, ← hsummary', List.flatMap_append,
      List.flatMap_singleton, List.append_assoc]

/-- Every query string that is bound has the same usages, and the problems of the new file are added
to the others. -/
theorem findUsages (h : s.Extends s' f) (hsettings : s.settings.problem? = none)
    (hfiles : s.files.isEmpty = false) {raw : String} (hraw : s.parseQuery raw = .ok query)
    (hquery : query.ignoresCase = true ∨ s.settings.caseFallback = false) :
    ∃ usages before after,
      s.findUsages raw = .ok ⟨usages, before ++ after⟩ ∧
      s'.findUsages raw =
        .ok ⟨usages, before ++ Diagnostic.summary (parseProblems f) ++ after⟩ := by
  have hfiles' : s'.files.isEmpty = false := by
    have hne : s'.files.values ≠ [] := by simp [h.values]
    rw [OrderedMap.isEmpty, List.isEmpty_eq_false_iff]
    exact fun hnil => hne (by rw [OrderedMap.values, hnil, List.map_nil])
  have hraw' : s'.parseQuery raw = .ok query := by
    rw [← hraw]
    exact (h.catalog.parse raw).symm
  obtain ⟨usages, before, after, hsearch, hsearch'⟩ := h.searchQuery hquery
  refine ⟨usages, before, after, ?_, ?_⟩
  · simp [Snapshot.findUsages, find, hsettings, hfiles, hraw, hsearch]
  · simp [Snapshot.findUsages, find, ← h.settings, hsettings, hfiles', hraw', hsearch']

end Extends
end Snapshot

/-! ## Indexing the file -/

namespace Workspace

open CrossReference.Registry

variable {w : Workspace} {f : SourceFile}

/-- The number that the next new path gets. -/
def nextId (w : Workspace) : FileId :=
  ⟨w.registry.paths.length⟩

theorem index_lt_of_lookup? {r : Registry} {path : String} {id : FileId}
    (h : r.lookup? path = some id) : id.index < r.paths.length := by
  rw [lookup?_eq] at h
  split at h
  · rename_i hmem
    rw [← Option.some.inj h]
    exact List.idxOf_lt_length_of_mem hmem
  · exact absurd h (by simp)

theorem Filed.contains_nextId (hw : w.Filed) : w.files.contains w.nextId = false := by
  rw [Bool.eq_false_iff, ne_eq, OrderedMap.contains_iff]
  rintro ⟨g, hg⟩
  have hlt : w.registry.paths.length < w.registry.paths.length :=
    index_lt_of_lookup? (hw.lookup? _ g hg)
  omega

/-- No symbol carries the next number, so none is removed before the new file is declared. -/
theorem Filed.symbols_removeFile (hw : w.Filed) :
    (w.catalog.removeFile w.nextId).symbols = w.catalog.symbols := by
  have hkeys : w.catalog.keysOf w.nextId = [] := by
    refine List.eq_nil_iff_forall_not_mem.2 ?_
    intro key hkey
    obtain ⟨s, hs, hfile⟩ := Option.map_eq_some_iff.1 ((hw.owned.mem_keysOf_iff _ _).1 hkey)
    have hindexed := hw.indexed key s hs
    rw [hfile, hw.contains_nextId] at hindexed
    exact absurd hindexed (by simp)
  show (w.catalog.keysOf w.nextId).foldl (Catalog.eraseOwn w.nextId) w.catalog.symbols = _
  rw [hkeys]
  rfl

/-- The workspace with a file under the next number, which declares nothing. -/
def withUnparsed (w : Workspace) (f : SourceFile) : Workspace :=
  (w.prepare (.setFile f)).install w.nextId f (Text.digest f.text) none

/-- A file without a tree under a new path is installed without declarations, and no store is asked
for them. -/
theorem Filed.setFile_unparsed (hw : w.Filed) (hpath : w.registry.lookup? f.path = none)
    (htree : f.tree = none) (store : Option DeclarationStore) :
    (w.respond store (.setFile f)).2.1 = w.withUnparsed f := by
  have hregister : (w.registry.register f.path).1 = w.nextId := by
    rw [Registry.register, hpath]
    rfl
  have hchanged : (w.prepare (.setFile f)).isUnchanged w.nextId (Text.digest f.text) = false := by
    have hnew : (w.prepare (.setFile f)).files.contains w.nextId = false := hw.contains_nextId
    rw [isUnchanged, hnew, Bool.false_and]
  have hfound : (declarationsOf store f w.nextId (Text.digest f.text)).1 = none := by
    unfold declarationsOf
    rw [htree]
  show (w.setFile store f).2.1 = _
  rw [setFile_eq_changes, hregister]
  simp only [changes, hchanged, Bool.false_eq_true, if_false, List.foldl_cons, List.foldl_nil,
    hfound]
  rfl

theorem allClauses_withUnparsed (hnew : w.nextId ∉ w.catalog.clauses.keys) :
    (w.withUnparsed f).catalog.allClauses = w.catalog.allClauses := by
  have hentries : (w.withUnparsed f).catalog.clauses.entries =
      w.catalog.clauses.entries ++ [(w.nextId, [])] :=
    OrderedMap.entries_insert_erase_of_new hnew []
  unfold Catalog.allClauses
  rw [hentries, List.flatMap_append]
  simp

/-- The new file changes neither what the symbols mean nor what the clauses ask for, so linking
gives what it gave. -/
theorem link_withUnparsed {log : List Effect} (hw : w.Filed) (hlinked : w.Relinked log)
    (f : SourceFile) :
    (w.withUnparsed f).catalog.link.symbols = w.catalog.link.symbols ∧
      (w.withUnparsed f).catalog.link.graph = w.catalog.link.graph ∧
        (w.withUnparsed f).catalog.link.rejected = w.catalog.link.rejected := by
  have hsymbols : (w.withUnparsed f).catalog.symbols = w.catalog.symbols := hw.symbols_removeFile
  have hclauses : w.nextId ∉ w.catalog.clauses.keys := by
    rw [OrderedMap.mem_keys_iff, hlinked.contains, hw.contains_nextId]
    simp
  have hdate : (w.withUnparsed f).catalog.UpToDate :=
    ((hlinked.withRegistry _).install w.nextId f _ none).upToDate
  have hlink : ((w.withUnparsed f).catalog.link.graph, (w.withUnparsed f).catalog.link.rejected) =
      (w.catalog.link.graph, w.catalog.link.rejected) := by
    rw [hdate.link_eq, hlinked.upToDate.link_eq, Catalog.resolve?_congr hsymbols,
      allClauses_withUnparsed hclauses]
  refine ⟨?_, congrArg Prod.fst hlink, congrArg Prod.snd hlink⟩
  rw [(Catalog.symbols_link _).1, (Catalog.symbols_link _).1, hsymbols]

theorem agrees_withUnparsed {log : List Effect} (hw : w.Filed) (hlinked : w.Relinked log)
    (hpath : w.registry.lookup? f.path = none) (htree : f.tree = none) :
    w.catalog.link.Agrees (w.withUnparsed f).catalog.link := by
  obtain ⟨hsymbols, hgraph, _⟩ := link_withUnparsed hw hlinked f
  have hw' : (w.withUnparsed f).Filed := by
    rw [← hw.setFile_unparsed hpath htree none]
    exact hw.respond none (.setFile f)
  constructor
  case find? =>
    intro key
    unfold Alike
    rw [hsymbols]
  case edgesFrom =>
    intro k
    rw [hgraph]
  case ancestorLimit =>
    rw [Catalog.ancestorLimit_link, Catalog.ancestorLimit_link]
    rfl
  case owned => exact (hw.prepare .snapshot).owned
  case owned' => exact (hw'.prepare .snapshot).owned

/-- A view after the file was indexed is a view before it with that file. -/
theorem extends_withUnparsed {log : List Effect} (hw : w.Filed) (hlinked : w.Relinked log)
    (hpath : w.registry.lookup? f.path = none) (htree : f.tree = none) :
    w.snapshot.Extends (w.withUnparsed f).snapshot f := by
  obtain ⟨hsymbols, hgraph, hrejected⟩ := link_withUnparsed hw hlinked f
  have hnew : w.nextId ∉ w.files.keys := by
    rw [OrderedMap.mem_keys_iff, hw.contains_nextId]
    simp
  have hpaths : ∀ id g, w.files.find? id = some g → g.path ≠ f.path := by
    intro id g hg heq
    have hid := hw.lookup? id g hg
    rw [heq, hpath] at hid
    exact absurd hid (by simp)
  -- A refused clause belongs to a file that was indexed before.
  have hfile : ∀ r ∈ w.catalog.link.rejected, ∃ g, w.files.find? r.file = some g := by
    intro r hr
    rw [← OrderedMap.contains_iff, ← hlinked.contains]
    exact hlinked.upToDate.file_of_mem_rejected hr
  constructor
  case values =>
    show (w.files.insert w.nextId f).values = w.files.values ++ [f]
    rw [OrderedMap.values, OrderedMap.entries_insert_of_new hnew, List.map_append]
    rfl
  case unparsed => exact htree
  case paths =>
    intro g hg
    obtain ⟨id, hid⟩ := OrderedMap.mem_values_iff.1 hg
    exact hpaths id g hid
  case catalog => exact agrees_withUnparsed hw hlinked hpath htree
  case settings => rfl
  case rejected =>
    show (w.withUnparsed f).catalog.link.rejected.map _ = w.catalog.link.rejected.map _
    rw [hrejected]
    refine List.map_congr_left ?_
    intro r hr
    obtain ⟨g, hg⟩ := hfile r hr
    have hne : r.file ≠ w.nextId := by
      intro heq
      exact hnew (OrderedMap.mem_keys_iff.2 (OrderedMap.contains_iff.2 ⟨g, heq ▸ hg⟩))
    have hsame : (w.withUnparsed f).snapshot.files.find? r.file = w.snapshot.files.find? r.file :=
      (OrderedMap.find?_insert _ _ _ _).trans (if_neg hne)
    unfold Snapshot.rejectionProblem
    rw [hsame]
  case elsewhere =>
    intro d hd
    obtain ⟨r, hr, rfl⟩ := List.mem_map.1 hd
    obtain ⟨g, hg⟩ := hfile r hr
    have hg' : w.snapshot.files.find? r.file = some g := hg
    unfold Snapshot.rejectionProblem
    rw [hg']
    exact mt Option.some.inj (hpaths _ g hg)

/-- A file that could not be parsed does not affect what is found elsewhere. Take any workspace,
with or without a store, that has a file and usable settings, and index a file without a tree under
a path that was never seen. A query string that is bound to a type, a function or a method, or to
anything if there is no second look without case, has the same usages as before. The problems that
are reported are those from before, and between them, all in one place, those of the new file. -/
theorem unparsed_file_only_reported (settings : Settings)
    (calls : List (Option DeclarationStore × Call)) (store : Option DeclarationStore)
    (f : SourceFile) (raw : String) (query : Query) :
    let w := afterWith settings calls
    let w' := (w.respond store (.setFile f)).2.1
    w.files.isEmpty = false → w.settings.problem? = none →
    f.tree = none → w.registry.lookup? f.path = none →
    w.snapshot.parseQuery raw = .ok query →
    (query.ignoresCase = true ∨ w.settings.caseFallback = false) →
    ∃ usages before added after,
      w.snapshot.findUsages raw = .ok ⟨usages, before ++ after⟩ ∧
      w'.snapshot.findUsages raw = .ok ⟨usages, before ++ added ++ after⟩ ∧
      added = Diagnostic.summary (Snapshot.parseProblems f) ∧
      ∀ d, d ∈ added ↔ d ∈ Snapshot.parseProblems f := by
  intro w w' hfiles hsettings htree hpath hraw hquery
  have hw : w.Filed := filed_afterWith settings calls
  have hlinked : w.Relinked _ := relinked_after settings calls
  have hindexed : w' = w.withUnparsed f := hw.setFile_unparsed hpath htree store
  obtain ⟨usages, before, after, hbefore, hafter⟩ :=
    (extends_withUnparsed hw hlinked hpath htree).findUsages hsettings hfiles hraw hquery
  refine ⟨usages, before, _, after, hbefore, ?_, rfl, fun d => Diagnostic.mem_summary_iff⟩
  rw [hindexed]
  exact hafter

/-- A torn file that comes to the sketch, which has a file without a tree already. -/
def torn : SourceFile where
  path := "torn.php"
  text := "function draw("
  tree := none
  errors := [{ message := "unexpected end of file" }]

/-- The call of the method is found as before, and the torn file is named in addition. -/
theorem torn_file_only_reported :
    let w := afterWith { indirectCalls := [] } (sketch.map fun f => (none, .setFile f))
    let w' := (w.respond (some ∅) (.setFile torn)).2.1
    (w.snapshot.findUsages "Shape::draw()").toOption.map (fun r =>
        (r.usages.map (fun u => (u.path, u.column)), r.diagnostics.map Diagnostic.file)) =
      some ([("canvas.php", 15)], [some "broken.php"]) ∧
    ∃ usages before added after,
      w.snapshot.findUsages "Shape::draw()" = .ok ⟨usages, before ++ after⟩ ∧
      w'.snapshot.findUsages "Shape::draw()" = .ok ⟨usages, before ++ added ++ after⟩ ∧
      added = Diagnostic.summary (Snapshot.parseProblems torn) ∧
      ∀ d, d ∈ added ↔ d ∈ Snapshot.parseProblems torn := by
  intro w w'
  have hraw : w.snapshot.parseQuery "Shape::draw()" = .ok (.member "Shape" "draw" .method) := by
    decide +kernel
  refine ⟨by decide +kernel, ?_⟩
  exact unparsed_file_only_reported { indirectCalls := [] } (sketch.map fun f => (none, .setFile f))
    (some ∅) torn "Shape::draw()" (.member "Shape" "draw" .method) (by decide +kernel)
    (by decide +kernel) rfl (by decide +kernel) hraw (.inl rfl)

end Workspace
end CrossReference
