import CrossReference.Proofs.Candidate.Patterns
import CrossReference.Proofs.Declaration.Provenance
import CrossReference.Proofs.Report
import CrossReference.Proofs.Usage.Agreement
import CrossReference.Proofs.Workspace.Contents

/-!
# The order of indexing

The result of a search does not depend on the order in which files were indexed, as long as the
files have different paths and declare different things, and no supertype clause is refused.

* `Snapshot.Agrees` relates two views of the same files; `Snapshot.Agrees.findUsages` says that
  every query string has the same result in both.
* `Workspace.Holds.snapshot_agrees` shows that two orders of indexing lead to such views.
* `Workspace.findUsages_eq_of_perm` is the conclusion.
-/

namespace CrossReference

namespace Snapshot

/-! ## A search, file by file -/

/-- Whether a file is searched. -/
def isSearched (s : Snapshot) (query : Query) (f : SourceFile) : Bool :=
  let p := Patterns.ofQuery s.settings query
  p.keeps s.settings.caseFallback
    ((s.files.values.map SourceFile.text).any (p.accept p.ignoreCase)) f.text

theorem searchCandidates_eq (s : Snapshot) (query : Query) :
    s.searchCandidates query =
      (s.files.values.filter (s.isSearched query)).map (s.searchFile query) := by
  have hkept : (s.files.values.filter (s.isSearched query)).map (s.searchFile query) =
      s.files.values.filterMap fun f =>
        if s.isSearched query f then some (s.searchFile query f) else none := by
    rw [← List.filterMap_eq_map, List.filterMap_filter]
    rfl
  rw [hkept, ← filterMap_getElem?_range]
  unfold searchCandidates
  simp only [candidates_eq, List.filterMap_filter, List.length_map]
  refine List.filterMap_congr ?_
  intro i hi
  have hlt : i < s.files.values.length := List.mem_range.1 hi
  simp [hlt, isSearched]

/-- What is reported of the sites that were found in a file. -/
def reported (s : Snapshot) (f : SourceFile) (found : List (Context × Site)) : SearchResult :=
  let lines := Lines.ofText f.text
  let limit := s.settings.maxUsagesPerFile
  { usages := (found.take limit).map (s.score f lines)
    diagnostics := (found.take limit).filterMap (unresolvedProblem? f lines) ++
      if limit < found.length then [.truncatedResults f.path limit] else [] }

theorem searchFile_of_size_le {s : Snapshot} {f : SourceFile} {stmts : List Tree.Stmt}
    (htree : f.tree = some stmts) (hsize : f.text.utf8ByteSize ≤ s.settings.maxFileBytes)
    (query : Query) : s.searchFile query f =
      s.reported f ((Search.ofQuery s.catalog s.settings query).sites stmts) := by
  unfold searchFile
  rw [htree]
  exact if_neg (Nat.not_lt.2 hsize)

/-- A file without a tree has no result, one that is too large is named, and of any other the sites
are reported. -/
theorem searchFile_cases (s : Snapshot) (query : Query) (f : SourceFile) :
    s.searchFile query f = {} ∨
      s.searchFile query f =
        { diagnostics :=
            [.oversizedFile f.path f.text.utf8ByteSize s.settings.maxFileBytes] } ∨
        ∃ found, s.searchFile query f = s.reported f found := by
  cases htree : f.tree with
  | none =>
      left
      unfold searchFile
      rw [htree]
  | some stmts =>
      right
      by_cases hsize : s.settings.maxFileBytes < f.text.utf8ByteSize
      · left
        unfold searchFile
        rw [htree]
        exact if_pos hsize
      · exact .inr ⟨_, searchFile_of_size_le htree (Nat.not_lt.1 hsize) query⟩

theorem exists_score_of_mem_usages {s : Snapshot} {query : Query} {f : SourceFile} {u : ScoredUsage}
    (h : u ∈ (s.searchFile query f).usages) : ∃ found, u = s.score f (.ofText f.text) found := by
  rcases s.searchFile_cases query f with heq | heq | ⟨found, heq⟩
  · exact absurd (heq ▸ h) List.not_mem_nil
  · exact absurd (heq ▸ h) List.not_mem_nil
  · rw [heq] at h
    obtain ⟨site, _, rfl⟩ := List.mem_map.1 h
    exact ⟨site, rfl⟩

theorem path_of_mem_usages {s : Snapshot} {query : Query} {f : SourceFile} {u : ScoredUsage}
    (h : u ∈ (s.searchFile query f).usages) : u.path = f.path := by
  obtain ⟨found, rfl⟩ := exists_score_of_mem_usages h
  rfl

theorem unresolvedProblem?_eq_some_iff {f : SourceFile} {lines : Lines} {found : Context × Site}
    {d : Diagnostic} : unresolvedProblem? f lines found = some d ↔
      ∃ name, found.2.evidence.resolution = .unresolved name ∧
        .unresolvedName f.path (lines.position found.2.span.start).shownLine name = d := by
  unfold unresolvedProblem?
  cases found.2.evidence.resolution with
  | unresolved name => simp
  | resolved => simp
  | builtin => simp

/-- What is wrong in the search of a file: a name was not resolved at a site that is reported, sites
were dropped, or the file is too large. -/
theorem mem_diagnostics_cases {s : Snapshot} {query : Query} {f : SourceFile} {d : Diagnostic}
    (h : d ∈ (s.searchFile query f).diagnostics) :
    (∃ found name, s.score f (.ofText f.text) found ∈ (s.searchFile query f).usages ∧
      d = .unresolvedName f.path (s.score f (.ofText f.text) found).line name) ∨
      d = .truncatedResults f.path s.settings.maxUsagesPerFile ∨
        d = .oversizedFile f.path f.text.utf8ByteSize s.settings.maxFileBytes := by
  rcases s.searchFile_cases query f with heq | heq | ⟨found, heq⟩
  · exact absurd (heq ▸ h) List.not_mem_nil
  · rw [heq] at h
    exact .inr (.inr (List.mem_singleton.1 h))
  · rw [heq] at h ⊢
    rcases List.mem_append.1 h with h | h
    · obtain ⟨site, hsite, hd⟩ := List.mem_filterMap.1 h
      obtain ⟨name, _, rfl⟩ := unresolvedProblem?_eq_some_iff.1 hd
      exact .inl ⟨site, name, List.mem_map_of_mem hsite, rfl⟩
    · split at h
      · exact .inr (.inl (List.mem_singleton.1 h))
      · exact absurd h List.not_mem_nil

theorem file_of_mem_diagnostics {s : Snapshot} {query : Query} {f : SourceFile} {d : Diagnostic}
    (h : d ∈ (s.searchFile query f).diagnostics) : d.file = some f.path := by
  rcases mem_diagnostics_cases h with ⟨_, _, _, rfl⟩ | rfl | rfl
  · rfl
  · rfl
  · rfl

theorem file_of_mem_parseProblems {f : SourceFile} {d : Diagnostic} (h : d ∈ parseProblems f) :
    d.file = some f.path := by
  unfold parseProblems at h
  split at h
  · exact absurd h List.not_mem_nil
  · split at h
    · rw [List.mem_singleton.1 h]
      rfl
    · obtain ⟨e, _, rfl⟩ := List.mem_map.1 h
      rfl

theorem searchFile_eq_of_agrees {s s' : Snapshot} (hcatalog : s.catalog.Agrees s'.catalog)
    (hsettings : s.settings = s'.settings) (query : Query) (f : SourceFile) :
    s.searchFile query f = s'.searchFile query f := by
  have hsites := Search.sites_ofQuery_eq hcatalog s'.settings query
  have hscore : s.score = s'.score := by
    funext f lines found
    unfold Snapshot.score
    rw [hsettings]
  unfold Snapshot.searchFile
  simp only [hsettings, hsites, hscore]

theorem ancestorProblems_eq_of_agrees {s s' : Snapshot} (hcatalog : s.catalog.Agrees s'.catalog)
    (query : Query) : s.ancestorProblems query = s'.ancestorProblems query := by
  cases query with
  | member owner name kind =>
      simp only [ancestorProblems, hcatalog.ancestors, hcatalog.hasType]
  | type name => rfl
  | function name => rfl
  | constant name => rfl

/-! ## Two views of the same files -/

/-- The same files with different paths, in any order, and catalogs that agree. -/
structure Agrees (s s' : Snapshot) : Prop where
  files : s.files.values.Perm s'.files.values
  paths : (s.files.values.map SourceFile.path).Nodup
  catalog : s.catalog.Agrees s'.catalog
  settings : s.settings = s'.settings
  rejected : s.catalog.rejected = []
  rejected' : s'.catalog.rejected = []

namespace Agrees

variable {s s' : Snapshot}

theorem searchFile (h : s.Agrees s') (query : Query) (f : SourceFile) :
    s.searchFile query f = s'.searchFile query f :=
  searchFile_eq_of_agrees h.catalog h.settings query f

theorem isSearched (h : s.Agrees s') (query : Query) :
    s.isSearched query = s'.isSearched query := by
  funext f
  unfold Snapshot.isSearched
  simp only [h.settings, (h.files.map SourceFile.text).any_eq]

/-- What the searched files contribute under one tag is the same. -/
theorem filter_results (h : s.Agrees s') (query : Query) {α τ : Type} [DecidableEq τ]
    {part : SearchResult → List α} {tag : α → τ} {partTag : SourceFile → τ}
    (htag : ∀ f, ∀ a ∈ part (s'.searchFile query f), tag a = partTag f)
    (hnodup : (s.files.values.map partTag).Nodup) (t : τ) :
    ((s.searchCandidates query).flatMap part).filter (fun a => tag a = t) =
      ((s'.searchCandidates query).flatMap part).filter fun a => tag a = t := by
  rw [searchCandidates_eq, searchCandidates_eq, List.flatMap_map, List.flatMap_map,
    h.isSearched query, show s.searchFile query = s'.searchFile query from
      funext (h.searchFile query)]
  exact filter_flatMap_eq_of_perm htag (h.files.filter _)
    (hnodup.sublist (List.filter_sublist.map partTag)) t

theorem nodup_files (h : s.Agrees s') :
    (s.files.values.map fun f => some f.path).Nodup := by
  have hsome := h.paths.map (Option.some_injective String)
  rwa [List.map_map] at hsome

theorem filter_indexProblems (h : s.Agrees s') (p : Option String) :
    s.indexProblems.filter (fun d => d.file = p) =
      s'.indexProblems.filter fun d => d.file = p := by
  unfold indexProblems
  rw [h.rejected, h.rejected', List.map_nil, List.append_nil, List.map_nil, List.append_nil]
  exact filter_flatMap_eq_of_perm (fun _ _ => file_of_mem_parseProblems) h.files h.nodup_files p

theorem ancestorProblems (h : s.Agrees s') (query : Query) :
    s.ancestorProblems query = s'.ancestorProblems query :=
  ancestorProblems_eq_of_agrees h.catalog query

theorem searchQuery (h : s.Agrees s') (query : Query) :
    s.searchQuery query s.indexProblems = s'.searchQuery query s'.indexProblems := by
  have husages := ScoredUsage.rank_eq_of_files_agree fun p =>
    h.filter_results query (fun _ _ => path_of_mem_usages) h.paths p
  have hdiagnostics : Diagnostic.summary (s.indexProblems ++ s.ancestorProblems query ++
        (s.searchCandidates query).flatMap SearchResult.diagnostics) =
      Diagnostic.summary (s'.indexProblems ++ s'.ancestorProblems query ++
        (s'.searchCandidates query).flatMap SearchResult.diagnostics) := by
    refine Diagnostic.summary_eq_of_files_agree ?_
    intro p
    have hresults := h.filter_results query (fun _ _ => file_of_mem_diagnostics) h.nodup_files p
    simp only [List.filter_append, h.filter_indexProblems, h.ancestorProblems, hresults]
  unfold Snapshot.searchQuery
  simp only [husages, hdiagnostics]

/-- Every query string has the same result. -/
theorem findUsages (h : s.Agrees s') (raw : String) : s.findUsages raw = s'.findUsages raw := by
  have hempty : s.files.isEmpty = s'.files.isEmpty := by
    have hlength := h.files.length_eq
    unfold OrderedMap.values at hlength
    unfold OrderedMap.isEmpty
    rw [List.length_map, List.length_map] at hlength
    rw [Bool.eq_iff_iff, List.isEmpty_iff, List.isEmpty_iff, ← List.length_eq_zero_iff, hlength,
      List.length_eq_zero_iff]
  have hmalformed : ∀ d : Diagnostic, Diagnostic.summary (s.indexProblems ++ [d]) =
      Diagnostic.summary (s'.indexProblems ++ [d]) := by
    intro d
    refine Diagnostic.summary_eq_of_files_agree ?_
    intro p
    rw [List.filter_append, List.filter_append, h.filter_indexProblems]
  unfold Snapshot.findUsages find parseQuery
  rw [h.settings, hempty, h.catalog.parse raw]
  simp only [hmalformed, h.searchQuery]

end Agrees
end Snapshot

/-! ## Files that declare different things -/

namespace SourceFile

/-- No symbol is declared by both files, and no type name up to case. -/
structure Apart (f g : SourceFile) : Prop where
  keys : ∀ key ∈ f.symbols.map Symbol.key, key ∉ g.symbols.map Symbol.key
  types : ∀ a ∈ Declarations.typeNames f.symbols, ∀ b ∈ Declarations.typeNames g.symbols,
    Name.key a ≠ Name.key b

instance (f g : SourceFile) : Decidable (f.Apart g) :=
  decidable_of_iff
    ((∀ key ∈ f.symbols.map Symbol.key, key ∉ g.symbols.map Symbol.key) ∧
      ∀ a ∈ Declarations.typeNames f.symbols, ∀ b ∈ Declarations.typeNames g.symbols,
        Name.key a ≠ Name.key b)
    ⟨fun h => ⟨h.1, h.2⟩, fun h => ⟨h.keys, h.types⟩⟩

theorem child_mem_typeNames {f : SourceFile} {c : Clause} (h : c ∈ f.clauses) :
    c.child ∈ Declarations.typeNames f.symbols := by
  unfold clauses symbols declarations at *
  cases htree : f.tree with
  | none =>
      rw [htree] at h
      exact absurd h List.not_mem_nil
  | some stmts =>
      rw [htree] at h
      exact Declarations.child_mem_typeNames h

theorem Apart.symbolsWith {f g : SourceFile} (h : f.Apart g) (key : SymbolKey) :
    f.symbolsWith key = [] ∨ g.symbolsWith key = [] := by
  by_contra hboth
  rw [not_or] at hboth
  have hmem : ∀ f : SourceFile, f.symbolsWith key ≠ [] → key ∈ f.symbols.map Symbol.key := by
    intro f hne
    obtain ⟨s, hs⟩ := List.exists_mem_of_ne_nil _ hne
    obtain ⟨hs, hkey⟩ := List.mem_filter.1 hs
    exact List.mem_map.2 ⟨s, hs, of_decide_eq_true hkey⟩
  exact h.keys key (hmem f hboth.1) (hmem g hboth.2)

end SourceFile

/-- The edge that a clause asks for, without its file. -/
def Catalog.asked? (c : Catalog) (clause : Clause) : Option Edge :=
  (c.wanted? (default, clause)).map Edge.placeless

/-- The edges that the clauses of a file ask for the type with key `k`. -/
def SourceFile.askedFrom (f : SourceFile) (c : Catalog) (k : String) : List Edge :=
  (f.clauses.filterMap c.asked?).filter (Name.key ·.child = k)

theorem SourceFile.Apart.askedFrom {f g : SourceFile} (h : f.Apart g) (c : Catalog) (k : String) :
    f.askedFrom c k = [] ∨ g.askedFrom c k = [] := by
  by_contra hboth
  rw [not_or] at hboth
  have hmem : ∀ f : SourceFile, f.askedFrom c k ≠ [] →
      ∃ name ∈ Declarations.typeNames f.symbols, Name.key name = k := by
    intro f hne
    obtain ⟨e, he⟩ := List.exists_mem_of_ne_nil _ hne
    obtain ⟨he, hk⟩ := List.mem_filter.1 he
    obtain ⟨clause, hclause, hasked⟩ := List.mem_filterMap.1 he
    refine ⟨clause.child, child_mem_typeNames hclause, ?_⟩
    obtain ⟨e', hwanted, rfl⟩ := Option.map_eq_some_iff.1 hasked
    obtain ⟨parent, _, rfl⟩ := Option.map_eq_some_iff.1 hwanted
    have hchild := of_decide_eq_true hk
    rwa [Edge.child_placeless, Edge.between, Name.key_relative] at hchild
  obtain ⟨a, ha, hak⟩ := hmem f hboth.1
  obtain ⟨b, hb, hbk⟩ := hmem g hboth.2
  exact h.types a ha b hb (hak.trans hbk.symm)

/-! ## Two orders of indexing -/

namespace Workspace
namespace Holds

variable {w w' : Workspace} {settings : Settings} {files files' : List SourceFile}

theorem values_eq (hw : w.Holds settings files) : w.files.values = files := by
  unfold OrderedMap.values
  rw [hw.entries, map_snd_numbering]

theorem map_snd_allClauses (hw : w.Holds settings files) :
    w.catalog.allClauses.map Prod.snd = files.flatMap SourceFile.clauses := by
  unfold Catalog.allClauses
  rw [hw.clauses, List.map_flatMap]
  have hsnd : ∀ x : FileId × List Clause,
      (x.2.map fun clause => (x.1, clause)).map Prod.snd = x.2 := by
    intro x
    rw [List.map_map]
    exact List.map_id _
  simp only [hsnd]
  rw [List.flatMap_def, map_snd_numbering, ← List.flatMap_def]

theorem wantedFrom_eq (hw : w.Holds settings files) (k : String) :
    w.catalog.wantedFrom k = files.flatMap fun f => f.askedFrom w.catalog k := by
  have hasked : (w.catalog.allClauses.filterMap fun x => (w.catalog.wanted? x).map Edge.placeless) =
      (w.catalog.allClauses.map Prod.snd).filterMap w.catalog.asked? := by
    rw [List.filterMap_map]
    refine List.filterMap_congr ?_
    intro x _
    unfold Catalog.asked? Catalog.wanted?
    rw [Function.comp_apply, Option.map_map, Option.map_map]
    rfl
  unfold Catalog.wantedFrom Catalog.wantedEdges
  rw [List.map_filterMap, hasked, hw.map_snd_allClauses, List.filterMap_flatMap,
    List.filter_flatMap]
  rfl

/-- The catalogs agree before they are linked. -/
theorem catalog_agrees (hw : w.Holds settings files) (hw' : w'.Holds settings files')
    (hperm : files.Perm files') (happart : files.Pairwise SourceFile.Apart) :
    w.catalog.Agrees w'.catalog where
  find? := by
    intro key
    have hsymbols := flatMap_eq_of_perm hperm (happart.imp fun h => h.symbolsWith key)
    unfold Alike
    rw [hw.find?, hw'.find?, hsymbols]
  edgesFrom := by
    intro k
    rw [hw.graph, hw'.graph]
  ancestorLimit := hw.ancestorLimit.trans hw'.ancestorLimit.symm
  owned := hw.owned
  owned' := hw'.owned

theorem fresh (hw : w.Holds settings files) (hne : files ≠ []) : w.catalog.Fresh where
  graph := hw.graph
  stale := hw.stale hne

/-- The views of two workspaces that hold the same files agree, if one of them refuses nothing. -/
theorem snapshot_agrees (hw : w.Holds settings files) (hw' : w'.Holds settings files')
    (hne : files ≠ []) (hperm : files.Perm files') (hpaths : (files.map SourceFile.path).Nodup)
    (happart : files.Pairwise SourceFile.Apart) (haccepted : w.snapshot.catalog.rejected = []) :
    w.snapshot.Agrees w'.snapshot := by
  have hagrees := hw.catalog_agrees hw' hperm happart
  have hne' : files' ≠ [] := fun h => hne (h ▸ hperm).eq_nil
  have hwanted : ∀ k, w.catalog.wantedFrom k = w'.catalog.wantedFrom k := by
    intro k
    have hasked : w.catalog.asked? = w'.catalog.asked? := by
      funext clause
      unfold Catalog.asked? Catalog.wanted?
      rw [hagrees.resolve?]
    rw [hw.wantedFrom_eq, hw'.wantedFrom_eq,
      flatMap_eq_of_perm hperm (happart.imp fun h => h.askedFrom w.catalog k)]
    unfold SourceFile.askedFrom
    rw [hasked]
  obtain ⟨hrejected', hlinked⟩ :=
    (hw.fresh hne).link_agrees (hw'.fresh hne') hagrees hwanted haccepted
  constructor
  case files =>
    show w.files.values.Perm w'.files.values
    rwa [hw.values_eq, hw'.values_eq]
  case paths =>
    show (w.files.values.map SourceFile.path).Nodup
    rwa [hw.values_eq]
  case catalog => exact hlinked
  case settings => exact hw.settings_eq.trans hw'.settings_eq.symm
  case rejected => exact haccepted
  case rejected' => exact hrejected'

end Holds

/-- The files of a list have different paths and declare different things, and no supertype clause
is refused once they are indexed. Then indexing them in another order changes no result of a
search. -/
theorem findUsages_eq_of_perm (settings : Settings) {files files' : List SourceFile}
    (hperm : files.Perm files') (hpaths : (files.map SourceFile.path).Nodup)
    (happart : files.Pairwise SourceFile.Apart)
    (haccepted : (after settings (files.map .setFile)).snapshot.catalog.rejected = [])
    (raw : String) :
    (after settings (files.map .setFile)).snapshot.findUsages raw =
      (after settings (files'.map .setFile)).snapshot.findUsages raw := by
  have hw := holds_after settings hpaths
  have hw' := holds_after settings ((hperm.map SourceFile.path).nodup_iff.1 hpaths)
  by_cases hne : files = []
  · subst hne
    rw [hperm.nil_eq]
  · exact (hw.snapshot_agrees hw' hne hperm hpaths happart haccepted).findUsages raw

/-- A class, one that extends it, a file without a tree, and a call of the inherited method. -/
def sketch : List SourceFile :=
  [{ path := "shapes.php"
     text := "class Shape { function draw() {} }"
     tree := some [.classLike (.mk .classDecl (some ⟨"Shape", ⟨6, 11⟩⟩) [] []
       [.method ⟨"draw", ⟨23, 27⟩⟩ .everyone false [] none []])] },
   { path := "circles.php"
     text := "class Circle extends Shape {}"
     tree := some [.classLike (.mk .classDecl (some ⟨"Circle", ⟨6, 12⟩⟩) [⟨"Shape", ⟨21, 26⟩⟩] []
       [])] },
   { path := "broken.php", text := "class Shape extends", tree := none },
   { path := "canvas.php"
     text := "(new Circle)->draw();"
     tree := some [.expr (.methodCall (.new (.named ⟨"Circle", ⟨5, 11⟩⟩) [] ⟨1, 11⟩)
       (.ident ⟨"draw", ⟨14, 18⟩⟩) [] false ⟨0, 20⟩)] }]

/-- The call is found, and the file without a tree is named, also when the class that is extended
and its method are indexed last. -/
theorem reversed_sketch_same_result :
    let settings : Settings := { indirectCalls := [] }
    let result (files : List SourceFile) :=
      (after settings (files.map .setFile)).snapshot.findUsages "Shape::draw"
    (result sketch).toOption.map (fun r => (r.usages.map (fun u => (u.path, u.column)),
        r.diagnostics.map Diagnostic.file)) =
      some ([("canvas.php", 15)], [some "broken.php"]) ∧
      result sketch = result sketch.reverse := by
  intro settings result
  refine ⟨by decide +kernel, ?_⟩
  exact findUsages_eq_of_perm settings (List.reverse_perm sketch).symm (by decide +kernel)
    (by decide +kernel) (by decide +kernel) "Shape::draw"

end Workspace
end CrossReference
