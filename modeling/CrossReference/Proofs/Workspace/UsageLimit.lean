import CrossReference.Proofs.Workspace.Placement

/-!
# The limit on the usages of a file

Of the sites of a file only so many are reported as the settings allow. Here the sites are taken in
one at a time, as the walk meets them: those beyond the limit are dropped, the first of them is
reported, and names that were not resolved are reported with the sites that are kept. The search of
a file gives the same at once.

Such a warning is never left alone. The usages of all files are ranked and repetitions dropped, but
of every site one usage stays, and it has the line of the warning.

* `Snapshot.takeIn` takes in one site, and `Snapshot.foldl_takeIn` says what all of them come to.
* `Snapshot.exists_usage_of_unresolved` finds the usage that a warning belongs to.
* `Workspace.limit_cuts_and_warnings_accompany` is the result.
-/

namespace CrossReference

/-- The name at a site, if it was not resolved. -/
def Site.unresolvedName? (site : Site) : Option String :=
  match site.evidence.resolution with
  | .unresolved name => some name
  | .resolved => none
  | .builtin => none

/-- What was taken in of the sites of a file so far. -/
structure Intake where
  usages : List ScoredUsage := []
  diagnostics : List Diagnostic := []
  /-- Whether it was reported that sites are dropped. -/
  isCut : Bool := false

namespace Snapshot

/-! ## One site at a time -/

/-- Takes in one more site. Beyond the limit it is dropped, which is reported once. -/
def takeIn (s : Snapshot) (f : SourceFile) (intake : Intake) (found : Context × Site) : Intake :=
  if intake.usages.length < s.settings.maxUsagesPerFile then
    { intake with
      usages := intake.usages ++ [s.score f (.ofText f.text) found]
      diagnostics := intake.diagnostics ++ (unresolvedProblem? f (.ofText f.text) found).toList }
  else if intake.isCut then
    intake
  else
    { intake with
      diagnostics := intake.diagnostics ++ [.truncatedResults f.path s.settings.maxUsagesPerFile]
      isCut := true }

/-- The intake after all of `found`. -/
def intakeOf (s : Snapshot) (f : SourceFile) (found : List (Context × Site)) : Intake where
  usages := (s.reported f found).usages
  diagnostics := (s.reported f found).diagnostics
  isCut := s.settings.maxUsagesPerFile < found.length

theorem length_usages_intakeOf (s : Snapshot) (f : SourceFile) (found : List (Context × Site)) :
    (s.intakeOf f found).usages.length = min s.settings.maxUsagesPerFile found.length := by
  simp [intakeOf, reported]

/-- One more site changes what is reported as `takeIn` says. -/
theorem takeIn_intakeOf (s : Snapshot) (f : SourceFile) (found : List (Context × Site))
    (site : Context × Site) :
    s.takeIn f (s.intakeOf f found) site = s.intakeOf f (found ++ [site]) := by
  unfold takeIn
  rw [length_usages_intakeOf]
  rcases Nat.lt_trichotomy found.length s.settings.maxUsagesPerFile with hlt | heq | hgt
  · -- There is room.
    have hall : found.take s.settings.maxUsagesPerFile = found := List.take_of_length_le hlt.le
    have hall' : (found ++ [site]).take s.settings.maxUsagesPerFile = found ++ [site] :=
      List.take_of_length_le (by simpa using hlt)
    have hfits : ¬ s.settings.maxUsagesPerFile < found.length := by omega
    have hfits' : ¬ s.settings.maxUsagesPerFile < (found ++ [site]).length := by
      rw [List.length_append, List.length_singleton]
      omega
    have hwarned : [site].filterMap (unresolvedProblem? f (.ofText f.text)) =
        (unresolvedProblem? f (.ofText f.text) site).toList := by
      cases hsite : unresolvedProblem? f (.ofText f.text) site with
      | none => simp [hsite]
      | some d => simp [hsite]
    rw [if_pos (by omega)]
    simp only [intakeOf, reported, hall, hall', hfits, hfits', hwarned, if_false, decide_false,
      List.append_nil, List.map_append, List.map_singleton, List.filterMap_append]
  · -- This is the first that is dropped.
    have hcut : ¬ s.settings.maxUsagesPerFile < found.length := by omega
    have hcut' : s.settings.maxUsagesPerFile < (found ++ [site]).length := by
      rw [List.length_append, List.length_singleton]
      omega
    rw [if_neg (by omega)]
    simp only [intakeOf, reported, List.take_append_of_le_length heq.ge, hcut, hcut', if_false,
      if_true, decide_false, decide_true, List.append_nil, Bool.false_eq_true]
  · -- This one is dropped too, and that was reported before.
    have hcut' : s.settings.maxUsagesPerFile < (found ++ [site]).length := by
      rw [List.length_append, List.length_singleton]
      omega
    rw [if_neg (by omega)]
    simp only [intakeOf, reported, List.take_append_of_le_length hgt.le, hgt, hcut', if_true,
      decide_true]

/-- The sites of a file, taken in one at a time, come to what is reported of them. -/
theorem foldl_takeIn (s : Snapshot) (f : SourceFile) (found : List (Context × Site)) :
    found.foldl (s.takeIn f) {} = s.intakeOf f found := by
  induction found using List.reverseRecOn with
  | nil => simp [intakeOf, reported]
  | append_singleton found site ih =>
      rw [List.foldl_append, ih]
      exact s.takeIn_intakeOf f found site

/-! ## What is reported of a file -/

/-- The snapshot with another limit on the usages of a file. -/
def withUsageLimit (s : Snapshot) (n : Nat) : Snapshot :=
  { s with settings := { s.settings with maxUsagesPerFile := n } }

/-- A warning about a name has the path and the line of the usage. -/
theorem unresolvedProblem?_eq_map (s : Snapshot) (f : SourceFile) (found : Context × Site) :
    unresolvedProblem? f (.ofText f.text) found = found.2.unresolvedName?.map
      (.unresolvedName (s.score f (.ofText f.text) found).path
        (s.score f (.ofText f.text) found).line) := by
  unfold unresolvedProblem? Site.unresolvedName?
  cases found.2.evidence.resolution with
  | unresolved name => rfl
  | resolved => rfl
  | builtin => rfl

/-- The warnings about the names at sites, from the usages that are reported of them. -/
theorem filterMap_unresolvedProblem? (s : Snapshot) (f : SourceFile)
    (found : List (Context × Site)) :
    found.filterMap (unresolvedProblem? f (.ofText f.text)) =
      (found.zip (found.map (s.score f (.ofText f.text)))).filterMap fun x =>
        x.1.2.unresolvedName?.map (.unresolvedName x.2.path x.2.line) := by
  rw [← List.map_prod_left_eq_zip, List.filterMap_map]
  exact List.filterMap_congr fun site _ => s.unresolvedProblem?_eq_map f site

theorem category_of_unresolvedProblem? {f : SourceFile} {lines : Lines} {found : Context × Site}
    {d : Diagnostic} (h : unresolvedProblem? f lines found = some d) :
    d.category = .unresolved := by
  obtain ⟨name, _, rfl⟩ := unresolvedProblem?_eq_some_iff.1 h
  rfl

theorem filter_unresolved_reported (s : Snapshot) (f : SourceFile)
    (found : List (Context × Site)) :
    (s.reported f found).diagnostics.filter (·.category = .unresolved) =
      (found.take s.settings.maxUsagesPerFile).filterMap
        (unresolvedProblem? f (.ofText f.text)) := by
  rw [reported, List.filter_append, List.filter_eq_self.2, List.filter_eq_nil_iff.2,
    List.append_nil]
  · intro d hd
    split at hd
    · rw [List.mem_singleton.1 hd]
      simp [Diagnostic.truncatedResults]
    · exact absurd hd List.not_mem_nil
  · intro d hd
    obtain ⟨site, _, hsite⟩ := List.mem_filterMap.1 hd
    exact decide_eq_true (category_of_unresolvedProblem? hsite)

theorem filter_resource_reported (s : Snapshot) (f : SourceFile) (found : List (Context × Site)) :
    (s.reported f found).diagnostics.filter (·.category = .resource) =
      if s.settings.maxUsagesPerFile < found.length then
        [.truncatedResults f.path s.settings.maxUsagesPerFile] else [] := by
  rw [reported, List.filter_append, List.filter_eq_nil_iff.2, List.filter_eq_self.2,
    List.nil_append]
  · intro d hd
    split at hd
    · rw [List.mem_singleton.1 hd]
      rfl
    · exact absurd hd List.not_mem_nil
  · intro d hd
    obtain ⟨site, _, hsite⟩ := List.mem_filterMap.1 hd
    simp [category_of_unresolvedProblem? hsite]

/-! ## Warnings and their usages -/

theorem category_of_mem_indexProblems {s : Snapshot} {d : Diagnostic} (h : d ∈ s.indexProblems) :
    d.category = .parse ∨ d.category = .cycle := by
  rcases List.mem_append.1 h with h | h
  · obtain ⟨f, _, hd⟩ := List.mem_flatMap.1 h
    left
    unfold parseProblems at hd
    split at hd
    · exact absurd hd List.not_mem_nil
    · split at hd
      · rw [List.mem_singleton.1 hd]
        rfl
      · obtain ⟨e, _, rfl⟩ := List.mem_map.1 hd
        rfl
  · obtain ⟨r, _, rfl⟩ := List.mem_map.1 h
    exact .inr rfl

theorem category_of_mem_ancestorProblems {s : Snapshot} {query : Query} {d : Diagnostic}
    (h : d ∈ s.ancestorProblems query) : d.category = .resource := by
  cases query with
  | member owner name kind =>
      unfold ancestorProblems at h
      simp only at h
      split at h
      · rw [List.mem_singleton.1 h]
        rfl
      · exact absurd h List.not_mem_nil
  | type name => exact absurd h List.not_mem_nil
  | function name => exact absurd h List.not_mem_nil
  | constant name => exact absurd h List.not_mem_nil

theorem exists_searched_of_mem {α : Type} {s : Snapshot} {query : Query}
    {part : SearchResult → List α} {a : α} (h : a ∈ (s.searchCandidates query).flatMap part) :
    ∃ f ∈ s.files.values.filter (s.isSearched query), a ∈ part (s.searchFile query f) := by
  rw [searchCandidates_eq, List.flatMap_map] at h
  exact List.mem_flatMap.1 h

/-- A site that is kept in its file has a usage with its path and line in the ranking of all. -/
theorem exists_ranked_usage {s : Snapshot}
    (hpaths : ∀ f ∈ s.files.values, ∀ g ∈ s.files.values, f.path = g.path → f = g)
    {query : Query} {f : SourceFile} (hf : f ∈ s.files.values.filter (s.isSearched query))
    {found : Context × Site}
    (hfound : s.score f (.ofText f.text) found ∈ (s.searchFile query f).usages) :
    ∃ u ∈ ScoredUsage.rank ((s.searchCandidates query).flatMap SearchResult.usages),
      u.path = f.path ∧ u.line = (s.score f (.ofText f.text) found).line := by
  have hall : s.score f (.ofText f.text) found ∈
      (s.searchCandidates query).flatMap SearchResult.usages := by
    rw [searchCandidates_eq, List.flatMap_map]
    exact List.mem_flatMap.2 ⟨f, hf, hfound⟩
  obtain ⟨u, hu, hsame⟩ := List.mem_map.1
    (ScoredUsage.mem_identities_rank_iff.2 (List.mem_map_of_mem hall))
  have hpath : u.path = f.path := congrArg Prod.fst hsame
  have hspan : u.span = found.2.span := congrArg (fun k => k.2.1) hsame
  -- What stays of the site comes from the same file, and there the span tells the line.
  obtain ⟨g, hg, hug⟩ := exists_searched_of_mem (ScoredUsage.mem_of_mem_rank hu)
  obtain rfl : g = f := hpaths g (List.mem_filter.1 hg).1 f (List.mem_filter.1 hf).1
    ((path_of_mem_usages hug).symm.trans hpath)
  obtain ⟨found', rfl⟩ := exists_score_of_mem_usages hug
  refine ⟨_, hu, hpath, ?_⟩
  have hspan' : found'.2.span = found.2.span := hspan
  simp only [score, Usage.locate, hspan']

/-- Where a name was not resolved, a usage on the line is reported. -/
theorem exists_usage_of_unresolved {s : Snapshot}
    (hpaths : ∀ f ∈ s.files.values, ∀ g ∈ s.files.values, f.path = g.path → f = g)
    {raw : String} {result : SearchResult} (h : s.findUsages raw = .ok result) {d : Diagnostic}
    (hd : d ∈ result.diagnostics) (hcategory : d.category = .unresolved) :
    ∃ u ∈ result.usages, d.file = some u.path ∧ d.line = some u.line := by
  have hindex : d ∉ s.indexProblems := fun hmem => by
    rcases category_of_mem_indexProblems hmem with hother | hother
    · exact absurd (hcategory.symm.trans hother) (by decide)
    · exact absurd (hcategory.symm.trans hother) (by decide)
  rcases findUsages_cases h with ⟨query, _, rfl⟩ | ⟨e, _, rfl⟩
  · rcases List.mem_append.1 (Diagnostic.mem_summary_iff.1 hd) with hknown | hresults
    · rcases List.mem_append.1 hknown with hmem | hmem
      · exact absurd hmem hindex
      · exact absurd (hcategory.symm.trans (category_of_mem_ancestorProblems hmem)) (by decide)
    · obtain ⟨f, hf, hwarned⟩ := exists_searched_of_mem hresults
      rcases mem_diagnostics_cases hwarned with ⟨found, name, hfound, rfl⟩ | rfl | rfl
      · obtain ⟨u, hu, hpath, hline⟩ := exists_ranked_usage hpaths hf hfound
        exact ⟨u, hu, congrArg some hpath.symm, congrArg some hline.symm⟩
      · exact absurd hcategory (by simp [Diagnostic.truncatedResults])
      · exact absurd hcategory (by simp [Diagnostic.oversizedFile])
  · rcases List.mem_append.1 (Diagnostic.mem_summary_iff.1 hd) with hmem | hmem
    · exact absurd hmem hindex
    · rw [List.mem_singleton.1 hmem] at hcategory
      exact absurd hcategory (by simp [Diagnostic.malformedQuery])

end Snapshot

namespace Workspace

/-- Take a file with a tree that is not too large, and any limit on its usages. Its sites, taken in
one at a time, come to what the search of the file gives: the usages are those of the first sites,
as many as the limit allows; there is one warning of dropped sites if there are more, and none
otherwise; and there is a warning for each kept usage whose name was not resolved, with its path and
line. In what a search in a workspace reports, each such warning therefore stands beside a usage
with its path and line. -/
theorem limit_cuts_and_warnings_accompany :
    (∀ (s : Snapshot) (query : Query) (f : SourceFile) (stmts : List Tree.Stmt) (n : Nat),
      f.tree = some stmts → f.text.utf8ByteSize ≤ s.settings.maxFileBytes →
      let found := (Search.ofQuery s.catalog s.settings query).sites stmts
      let intake := found.foldl ((s.withUsageLimit n).takeIn f) {}
      let result := (s.withUsageLimit n).searchFile query f
      result = ⟨intake.usages, intake.diagnostics⟩ ∧
      result.usages = (found.take n).map (s.score f (.ofText f.text)) ∧
      result.diagnostics.filter (·.category = .resource) =
        (if n < found.length then [.truncatedResults f.path n] else []) ∧
      result.diagnostics.filter (·.category = .unresolved) =
        ((found.take n).zip result.usages).filterMap (fun x =>
          x.1.2.unresolvedName?.map (.unresolvedName x.2.path x.2.line)) ∧
      ∀ d ∈ result.diagnostics, d.category = .resource ∨ d.category = .unresolved) ∧
    ∀ (settings : Settings) (calls : List (Option DeclarationStore × Call)) (raw : String)
      (result : SearchResult), (afterWith settings calls).snapshot.findUsages raw = .ok result →
      ∀ d ∈ result.diagnostics, d.category = .unresolved →
        ∃ u ∈ result.usages, d.file = some u.path ∧ d.line = some u.line := by
  constructor
  · intro s query f stmts n htree hsize found intake result
    have hresult : result = (s.withUsageLimit n).reported f found :=
      Snapshot.searchFile_of_size_le (s := s.withUsageLimit n) htree hsize query
    have hintake : intake = (s.withUsageLimit n).intakeOf f found := Snapshot.foldl_takeIn _ f found
    refine ⟨by rw [hresult, hintake]; rfl, by rw [hresult]; rfl, ?_, ?_, ?_⟩
    · rw [hresult]
      exact Snapshot.filter_resource_reported _ f found
    · rw [hresult, Snapshot.filter_unresolved_reported]
      exact Snapshot.filterMap_unresolvedProblem? (s.withUsageLimit n) f (found.take n)
    · intro d hd
      rcases Snapshot.mem_diagnostics_cases hd with ⟨_, _, _, rfl⟩ | rfl | rfl
      · exact .inr rfl
      · exact .inl rfl
      · exact .inl rfl
  · intro settings calls raw result h d hd hcategory
    have hw := filed_afterWith settings calls
    exact Snapshot.exists_usage_of_unresolved (fun f hf g hg => hw.eq_of_path_eq hf hg) h hd
      hcategory

/-- A class that nothing declares, named on two lines. -/
def crowded : SourceFile where
  path := "crowded.php"
  text := "new Widget;\nnew Widget;"
  tree := some [.expr (.new (.named ⟨"Widget", ⟨4, 10⟩⟩) [] ⟨0, 10⟩),
    .expr (.new (.named ⟨"Widget", ⟨16, 22⟩⟩) [] ⟨12, 22⟩)]

/-- With room for one usage the second is dropped, and the warning of the first stays with it. -/
theorem crowded_cut_and_warned :
    let settings : Settings := { maxUsagesPerFile := 1, indirectCalls := [] }
    let s := (afterWith settings [(none, .setFile crowded)]).snapshot
    let found := (Search.ofQuery s.catalog s.settings (.type "Widget")).sites (crowded.tree.getD [])
    let result := (s.withUsageLimit 1).searchFile (.type "Widget") crowded
    (1 < found.length ∧
      result.usages = (found.take 1).map (s.score crowded (.ofText crowded.text)) ∧
      result.diagnostics.filter (·.category = .resource) =
        (if 1 < found.length then [.truncatedResults crowded.path 1] else [])) ∧
    ∃ all d, s.findUsages "Widget" = .ok all ∧ d ∈ all.diagnostics ∧ d.category = .unresolved ∧
      ∃ u ∈ all.usages, d.file = some u.path ∧ d.line = some u.line := by
  intro settings s found result
  have hparse : s.parseQuery "Widget" = .ok (.type "Widget") ∧ 1 < found.length ∧
      .unresolvedName "crowded.php" 1 "Widget" ∈
        (s.searchCandidates (.type "Widget")).flatMap SearchResult.diagnostics := by
    decide +kernel
  obtain ⟨hraw, hlength, hwarned⟩ := hparse
  have hall := Snapshot.findUsages_of_parseQuery (s := s) rfl rfl hraw
  have hd : .unresolvedName "crowded.php" 1 "Widget" ∈
      (s.searchQuery (.type "Widget") s.indexProblems).diagnostics :=
    Diagnostic.mem_summary_iff.2 (List.mem_append_right _ hwarned)
  obtain ⟨-, husages, hcut, -⟩ := limit_cuts_and_warnings_accompany.1 s (.type "Widget") crowded _ 1
    rfl (by decide)
  exact ⟨⟨hlength, husages, hcut⟩, _, _, hall, hd, rfl,
    limit_cuts_and_warnings_accompany.2 settings _ "Widget" _ hall _ hd rfl⟩

end Workspace
end CrossReference
