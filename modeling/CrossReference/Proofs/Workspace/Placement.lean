import CrossReference.Proofs.Source.Positions
import CrossReference.Proofs.Usage.Ranking
import CrossReference.Proofs.Workspace.Filing
import CrossReference.Proofs.Workspace.Reordering

/-!
# Where reported usages stand

A usage is reported with its path, its line and column, the line itself and the lines around it. All
of this is read off the text of one file, the file with that path, also where a span lies beyond the
end of the text.

* `Window.Shows` says what a window holds, and `Window.shows_around` that it does.
* `ScoredUsage.StandsIn` says how a usage belongs to a text.
* `Snapshot.findUsages_cases` says what a search gives, and `Snapshot.exists_file_of_mem_usages`
  from which file a usage comes.
* `Workspace.usages_stand_in_their_files` is the result.
-/

namespace CrossReference

/-! ## Windows -/

/-- The window has the lines of `text` that are at most `radius` away from `line`, as they stand
there. Lines count from one. -/
structure Window.Shows (w : Window) (text : String) (line radius : Nat) : Prop where
  firstLine_eq : w.firstLine = max 1 (line - radius)
  lastLine_eq : w.lastLine = min (Lines.ofText text).count (line + radius)
  length_lines : w.lines.length = w.lastLine + 1 - w.firstLine
  lines_eq : ∀ n, w.firstLine ≤ n → n ≤ w.lastLine → ∃ cut : Lines.Cut text (n - 1),
    (Lines.ofText text).text? text (n - 1) = some cut.body ∧
      w.lines[n - w.firstLine]? = some cut.body

theorem Window.shows_around {text : String} {line : Nat} (radius : Nat)
    (h : line < (Lines.ofText text).count) :
    (around (.ofText text) text line radius).Shows text (line + 1) radius := by
  have hline : min line ((Lines.ofText text).count - 1) = line := by omega
  refine ⟨?_, ?_, ?_, ?_⟩
  · simp only [around, hline]
    omega
  · simp only [around, hline]
    omega
  · simp only [around, hline, List.length_map, List.length_range']
    omega
  · intro n hfirst hlast
    simp only [around, hline] at hfirst hlast ⊢
    have hn : n - 1 < (Lines.ofText text).count := by omega
    obtain ⟨cut, hcut⟩ := Lines.exists_cut hn
    refine ⟨cut, hcut, ?_⟩
    have hindex : n - (line - radius + 1) <
        min (line + radius) ((Lines.ofText text).count - 1) + 1 - (line - radius) := by omega
    have hline' : line - radius + (n - (line - radius + 1)) = n - 1 := by omega
    rw [List.getElem?_map, List.getElem?_range' hindex, Nat.one_mul, hline', Option.map_some, hcut]
    rfl

/-! ## Usages in a text -/

/-- The usage is where it says in `text`, with the lines around it. -/
structure ScoredUsage.StandsIn (u : ScoredUsage) (text : String) (radius : Nat) : Prop where
  line_pos : 0 < u.line
  column_pos : 0 < u.column
  position_eq : (Lines.ofText text).position u.span.start = ⟨u.line - 1, u.column - 1⟩
  snippet_eq : ∃ cut : Lines.Cut text (u.line - 1),
    (Lines.ofText text).text? text (u.line - 1) = some cut.body ∧ u.snippet = cut.body
  context : u.context.Shows text u.line radius
  snippet_mem : u.context.lines[u.line - u.context.firstLine]? = some u.snippet

namespace Snapshot

variable {s : Snapshot} {f : SourceFile} {u : ScoredUsage}

theorem standsIn_score (s : Snapshot) (f : SourceFile) (found : Context × Site) :
    (s.score f (.ofText f.text) found).StandsIn f.text s.settings.contextRadius := by
  have hline := Lines.line_position_lt f.text found.2.span.start
  obtain ⟨cut, hcut⟩ := Lines.exists_cut hline
  have hsnippet : (s.score f (.ofText f.text) found).snippet = cut.body := by
    simp only [score, Usage.locate, hcut, Option.getD_some]
  have hshows := Window.shows_around s.settings.contextRadius hline
  refine ⟨Nat.succ_pos _, Nat.succ_pos _, rfl, ⟨cut, hcut, hsnippet⟩, hshows, ?_⟩
  -- The line of the usage is one of those that the window shows.
  obtain ⟨shown, htext, hshown⟩ := hshows.lines_eq
    (((Lines.ofText f.text).position found.2.span.start).line + 1)
    (by rw [hshows.firstLine_eq]; omega) (by rw [hshows.lastLine_eq]; omega)
  have hbody : cut.body = shown.body := Option.some.inj (hcut.symm.trans htext)
  rw [hsnippet, hbody]
  exact hshown

/-! ## Usages of a search -/

/-- A search that has a result bound the query and searched for it, or complains of the query. -/
theorem findUsages_cases {raw : String} {result : SearchResult}
    (h : s.findUsages raw = .ok result) :
    (∃ query, s.parseQuery raw = .ok query ∧ result = s.searchQuery query s.indexProblems) ∨
      ∃ e, s.parseQuery raw = .error e ∧ result =
        { diagnostics :=
            Diagnostic.summary (s.indexProblems ++ [.malformedQuery raw e.message]) } := by
  unfold findUsages find at h
  split at h
  · exact absurd h (by simp)
  · split at h
    · exact absurd h (by simp)
    · split at h
      · rename_i e hquery
        exact .inr ⟨e, hquery, (Except.ok.inj h).symm⟩
      · rename_i query hquery
        exact .inl ⟨query, hquery, (Except.ok.inj h).symm⟩

theorem findUsages_of_parseQuery {raw : String} {query : Query}
    (hsettings : s.settings.problem? = none) (hfiles : s.files.isEmpty = false)
    (hraw : s.parseQuery raw = .ok query) :
    s.findUsages raw = .ok (s.searchQuery query s.indexProblems) := by
  simp [findUsages, find, hsettings, hfiles, hraw]

theorem eq_ok_of_toOption {result : SearchResult} {e : Except SearchError SearchResult}
    (h : e.toOption = some result) : e = .ok result := by
  cases e with
  | error e => exact absurd h (by simp [Except.toOption])
  | ok r => exact congrArg Except.ok (Option.some.inj h)

/-- Every usage comes from the search of a file. -/
theorem exists_file_of_mem_usages {raw : String} {result : SearchResult}
    (h : s.findUsages raw = .ok result) (hu : u ∈ result.usages) :
    ∃ query, ∃ f ∈ s.files.values, u ∈ (s.searchFile query f).usages := by
  rcases findUsages_cases h with ⟨query, _, rfl⟩ | ⟨e, _, rfl⟩
  · have hall := ScoredUsage.mem_of_mem_rank hu
    rw [searchCandidates_eq, List.flatMap_map] at hall
    obtain ⟨f, hf, hmem⟩ := List.mem_flatMap.1 hall
    exact ⟨query, f, (List.mem_filter.1 hf).1, hmem⟩
  · exact absurd hu List.not_mem_nil

end Snapshot

namespace Workspace

/-- No two indexed files have the same path. -/
theorem Filed.eq_of_path_eq {w : Workspace} (hw : w.Filed) {f g : SourceFile}
    (hf : f ∈ w.files.values) (hg : g ∈ w.files.values) (h : f.path = g.path) : f = g := by
  obtain ⟨id, hid⟩ := OrderedMap.mem_values_iff.1 hf
  obtain ⟨id', hid'⟩ := OrderedMap.mem_values_iff.1 hg
  have hlookup := hw.lookup? id f hid
  rw [h, hw.lookup? id' g hid'] at hlookup
  obtain rfl := Option.some.inj hlookup
  exact Option.some.inj (hid.symm.trans hid')

/-- Take any workspace, with or without a store, and any query string. There is exactly one file
with the path of a reported usage. The line and the column of the usage are the position of its span
in the text of that file, the snippet is that line without its terminator, and the context has the
lines around it that the file has. -/
theorem usages_stand_in_their_files (settings : Settings)
    (calls : List (Option DeclarationStore × Call)) (raw : String) (result : SearchResult)
    (u : ScoredUsage) :
    let s := (afterWith settings calls).snapshot
    s.findUsages raw = .ok result → u ∈ result.usages →
    ∃ f ∈ s.files.values, (∀ g ∈ s.files.values, g.path = u.path ↔ g = f) ∧
      u.StandsIn f.text s.settings.contextRadius := by
  intro s h hu
  obtain ⟨query, f, hf, hmem⟩ := Snapshot.exists_file_of_mem_usages h hu
  have hpath := Snapshot.path_of_mem_usages hmem
  obtain ⟨found, rfl⟩ := Snapshot.exists_score_of_mem_usages hmem
  refine ⟨f, hf, fun g hg => ⟨fun hgu => ?_, fun hgf => hgf ▸ hpath.symm⟩,
    s.standsIn_score f found⟩
  exact (filed_afterWith settings calls).eq_of_path_eq hg hf (hgu.trans hpath)

/-- Two lines, with a class that is named beyond the end of the text. -/
def margin : SourceFile where
  path := "margin.php"
  text := "// Widget\r\nnew Widget"
  tree := some [.expr (.new (.named ⟨"Widget", ⟨40, 46⟩⟩) [] ⟨36, 46⟩)]

/-- The name stands at the end of the last line, and the widest window has both lines. -/
theorem margin_usage_stands_in_its_file :
    let s := (afterWith { contextRadius := 4294967295, indirectCalls := [] }
      [(none, .setFile margin)]).snapshot
    ∃ result u, s.findUsages "Widget" = .ok result ∧ u ∈ result.usages ∧
      (u.line, u.column, u.context) = (2, 11, ⟨1, 2, ["// Widget", "new Widget"]⟩) ∧
      ∃ f ∈ s.files.values, (∀ g ∈ s.files.values, g.path = u.path ↔ g = f) ∧
        u.StandsIn f.text s.settings.contextRadius := by
  intro s
  have hfound : (s.findUsages "Widget").toOption.map
      (fun r => r.usages.map fun u => (u.line, u.column, u.context)) =
        some [(2, 11, ⟨1, 2, ["// Widget", "new Widget"]⟩)] := by
    decide +kernel
  obtain ⟨result, hresult, hplaces⟩ := Option.map_eq_some_iff.1 hfound
  obtain ⟨u, husages, hplace⟩ := List.map_eq_singleton_iff.1 hplaces
  have hok := Snapshot.eq_ok_of_toOption hresult
  have hu : u ∈ result.usages := husages ▸ List.mem_singleton_self u
  exact ⟨result, u, hok, hu, hplace, usages_stand_in_their_files
    { contextRadius := 4294967295, indirectCalls := [] } [(none, .setFile margin)] "Widget" result u
    hok hu⟩

end Workspace
end CrossReference
