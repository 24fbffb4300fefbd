import CrossReference.Proofs.Candidate.Patterns
import CrossReference.Proofs.Query.Grammar
import CrossReference.Proofs.Usage.Respelling
import CrossReference.Proofs.Workspace.Reordering

/-!
# Searches ignore the case of functions and methods

The case of a query for a function or a method makes no difference anywhere on the way to the
result: not when the string is read and bound, not when the files are chosen by their texts, not in
the walk, and not in the report. Of a query for a property this holds for the type before the mark.

* `Query.Respelled` relates the bound queries. A name that is bound to no type stays as it was
  written, but then no ancestors are known that could be reported under it.
* `Snapshot.isSearched_respelled` and `Snapshot.searchFile_respelled` say that the same files are
  searched with the same result.
* `Snapshot.findUsages_ignores_case` puts them together.
-/

namespace CrossReference

open Text (foldCase)

/-! ## The choice of files -/

namespace Patterns

/-- Patterns that ignore case may be written in any case. -/
theorem keeps_congr {p p' : Patterns} (hp : p.ignoreCase = true) (hp' : p'.ignoreCase = true)
    (hsufficient : p.sufficient = p'.sufficient)
    (hrequired : p.required.map foldCase = p'.required.map foldCase) (fallback found found' : Bool)
    (text : String) : p.keeps fallback found text = p'.keeps fallback found' text := by
  have hempty : ∀ q : Patterns, q.isVacuous = (q.required.map foldCase).all (· == "") := by
    intro q
    unfold isVacuous
    rw [List.all_map]
    congr 1
    funext needle
    rw [Bool.eq_iff_iff, Function.comp_apply, beq_iff_eq, beq_iff_eq, Text.foldCase_eq_empty_iff]
  have haccept : ∀ q : Patterns, q.accept true text =
      ((q.required.map foldCase).all (Text.contains (foldCase text)) ||
        q.sufficient.any (containsFolded text)) := by
    intro q
    unfold accept
    rw [List.all_map]
    rfl
  unfold keeps
  rw [hp, hp', Bool.true_or, Bool.true_or, hempty, hempty, haccept, haccept, hrequired, hsufficient]

end Patterns

/-- Whether two bound queries differ only in what a search ignores. -/
inductive Query.Respelled (c : Catalog) : Query → Query → Prop where
  | function {name name' : String} (h : foldCase name = foldCase name') :
      Respelled c (.function name) (.function name')
  | member {owner owner' name name' : String} {kind : SymbolKind} (hkind : kind.isMember = true)
      (hname : Name.IsUnmarked name) (hname' : Name.IsUnmarked name')
      (hsame : kind.sameMember name name' = true) (hkey : Name.key owner = Name.key owner')
      (howner : owner = owner' ∨ c.hasType owner = false ∧ c.hasType owner' = false) :
      Respelled c (.member owner name kind) (.member owner' name' kind)

namespace Snapshot

variable {s : Snapshot} {query query' : Query}

theorem isSearched_respelled (h : Query.Respelled s.catalog query query') :
    s.isSearched query = s.isSearched query' := by
  funext f
  unfold isSearched
  cases h with
  | function h =>
      refine Patterns.keeps_congr ?_ ?_ ?_ ?_ _ _ _ _
      all_goals simp [Patterns.ofQuery, Name.foldCase_lastPart, h]
  | @member owner owner' name name' kind hkind _ _ hsame _ _ =>
      cases hcase : kind.ignoresCase with
      | false =>
          obtain rfl : name = name' := by
            simpa [SymbolKind.sameMember, hcase] using hsame
          rfl
      | true =>
          obtain rfl : kind = .method := by
            cases kind <;> simp_all [SymbolKind.isMember, SymbolKind.ignoresCase]
          have hfold : foldCase name = foldCase name' := SymbolKind.sameMember_iff.1 hsame
          have hconstructor : Name.isConstructor name = Name.isConstructor name' := by
            unfold Name.isConstructor Text.sameFolded
            rw [hfold]
          by_cases hnew : Name.isConstructor name' = true
          · simp [Patterns.ofQuery, hconstructor, hnew, Patterns.keeps, Patterns.isVacuous]
          · refine Patterns.keeps_congr ?_ ?_ ?_ ?_ _ _ _ _
            all_goals simp [Patterns.ofQuery, hconstructor, hnew, hfold]

/-! ## The search of a file -/

/-- Whether two sites look alike in a report. -/
structure SameInReport (a b : Site) : Prop where
  span : a.span = b.span
  kind : a.kind = b.kind
  resolution : a.evidence.resolution = b.evidence.resolution
  confidence : ∀ ctx, a.confidence ctx = b.confidence ctx

/-- Sites that look alike in a report give one result. -/
theorem searchFile_congr (turn : Site → Site) (hturn : ∀ site, SameInReport (turn site) site)
    (hsites : ∀ stmts, (Search.ofQuery s.catalog s.settings query').sites stmts =
      ((Search.ofQuery s.catalog s.settings query).sites stmts).map
        fun found => (found.1, turn found.2)) (f : SourceFile) :
    s.searchFile query f = s.searchFile query' f := by
  have hscore : ∀ lines found, s.score f lines (found.1, turn found.2) =
      s.score f lines found := by
    intro lines found
    obtain ⟨hspan, hkind, _, hconfidence⟩ := hturn found.2
    simp only [score, Usage.locate, hspan, hkind, hconfidence]
  have hproblem : ∀ lines found, unresolvedProblem? f lines (found.1, turn found.2) =
      unresolvedProblem? f lines found := by
    intro lines found
    obtain ⟨hspan, _, hresolution, _⟩ := hturn found.2
    simp only [unresolvedProblem?, hspan, hresolution]
  unfold searchFile
  cases f.tree with
  | none => rfl
  | some stmts =>
      simp only [hsites, ← List.map_take, List.map_map, List.filterMap_map, Function.comp_def,
        hscore, hproblem, List.length_map]

theorem sameInReport_respelled (name : String) (site : Site) :
    SameInReport (site.respelled name) site where
  span := rfl
  kind := rfl
  resolution := rfl
  confidence := by
    intro ctx
    have hmember : (site.respelled name).evidence.member.any (!·.declared) =
        site.evidence.member.any (!·.declared) := by
      simp only [Site.respelled]
      cases site.evidence.member <;> rfl
    have hdynamic : (site.respelled name).isDynamic ctx = site.isDynamic ctx := by
      unfold Site.isDynamic
      rw [hmember]
      rfl
    unfold Site.confidence
    rw [hdynamic]
    rfl

theorem searchFile_respelled (h : Query.Respelled s.catalog query query') :
    s.searchFile query = s.searchFile query' := by
  funext f
  cases h with
  | @function name name' h =>
      have hsame : Name.same name name' = true := Name.same_iff.2 (Name.key_eq_of_foldCase_eq h)
      have hsites : ∀ stmts, (Search.ofQuery s.catalog s.settings (.function name')).sites stmts =
          (Search.ofQuery s.catalog s.settings (.function name)).sites stmts := by
        intro stmts
        exact Search.sites_asking_function
          (s := Search.ofQuery s.catalog s.settings (.function name)) rfl hsame stmts
      refine searchFile_congr id (fun _ => ⟨rfl, rfl, rfl, fun _ => rfl⟩) ?_ f
      intro stmts
      rw [hsites]
      exact (List.map_id _).symm
  | @member owner owner' name name' kind _ hname hname' hsame hkey _ =>
      have hfound := s.catalog.findMember?_respelled hname hname' hkey hsame
      have hrespells : (Search.ofQuery s.catalog s.settings (.member owner name kind)).Respells
          owner name owner' name' kind :=
        { query := rfl, unmarked := hname, unmarked' := hname', same := hsame
          below := fun _ type => s.catalog.isSameOrAncestor_congr hkey type }
      refine searchFile_congr (Site.respelled name') (sameInReport_respelled name') ?_ f
      intro stmts
      rw [← Search.sites_asking hrespells, Search.ofQuery_asking]
      unfold Search.declarationOf
      simp only [hfound]

/-! ## The whole search -/

theorem ancestorProblems_respelled (h : Query.Respelled s.catalog query query') :
    s.ancestorProblems query = s.ancestorProblems query' := by
  cases h with
  | function h => rfl
  | member _ _ _ _ _ howner =>
      rcases howner with rfl | ⟨hnone, hnone'⟩
      · rfl
      · simp [ancestorProblems, hnone, hnone']

theorem searchQuery_respelled (h : Query.Respelled s.catalog query query')
    (problems : List Diagnostic) :
    s.searchQuery query problems = s.searchQuery query' problems := by
  have hresults : s.searchCandidates query = s.searchCandidates query' := by
    rw [searchCandidates_eq, searchCandidates_eq, isSearched_respelled h, searchFile_respelled h]
  unfold searchQuery
  simp only [hresults, ancestorProblems_respelled h]

end Snapshot

/-! ## Query strings -/

namespace ParsedQuery

/-- Whether a query that is written like `name()` or `Owner::method()` may stand for another one of
its form, or `Owner::$property` for one with the same property. -/
inductive SameForm : ParsedQuery → ParsedQuery → Prop where
  | function (name name' : String) : SameForm (.function name) (.function name')
  | method (owner name owner' name' : String) :
      SameForm (.member owner name (some .method)) (.member owner' name' (some .method))
  | property (owner owner' name : String) :
      SameForm (.member owner name (some .property)) (.member owner' name (some .property))

theorem SameForm.respelled_bind (c : Catalog) {raw raw' : String} {p p' : ParsedQuery}
    (h : p.SameForm p') (hcase : p.folded = p'.folded) (hraw : parse .unicode raw = .ok p)
    (hraw' : parse .unicode raw' = .ok p') :
    Query.Respelled c (Query.bind c p) (Query.bind c p') := by
  have hmember : ∀ {owner name owner' name' : String} {kind : SymbolKind},
      kind.isMember = true → kind.sameMember name name' = true →
      foldCase owner = foldCase owner' →
      parse .unicode raw = .ok (.member owner name (some kind)) →
      parse .unicode raw' = .ok (.member owner' name' (some kind)) →
      Query.Respelled c (Query.bind c (.member owner name (some kind)))
        (Query.bind c (.member owner' name' (some kind))) := by
    intro owner name owner' name' kind hkind hsame howner hraw hraw'
    have hunmarked := Name.isUnmarked_of_isIdentifier
      (Text.Alphabet.isIdentifier_iff.2 (identifier_of_parse hraw))
    have hunmarked' := Name.isUnmarked_of_isIdentifier
      (Text.Alphabet.isIdentifier_iff.2 (identifier_of_parse hraw'))
    rw [Query.bind_member, Query.bind_member]
    rcases Query.bindOwner_cases c howner with heq | ⟨hself, hself', hnone, hnone'⟩
    · rw [heq]
      exact .member hkind hunmarked hunmarked' hsame rfl (.inl rfl)
    · rw [hself, hself']
      exact .member hkind hunmarked hunmarked' hsame (Name.key_eq_of_foldCase_eq howner)
        (.inr ⟨hnone, hnone'⟩)
  cases h with
  | function name name' => exact .function (ParsedQuery.function.inj hcase)
  | method owner name owner' name' =>
      obtain ⟨howner, hname, _⟩ := ParsedQuery.member.inj hcase
      exact hmember rfl (SymbolKind.sameMember_iff.2 hname) howner hraw hraw'
  | property owner owner' name =>
      obtain ⟨howner, _, _⟩ := ParsedQuery.member.inj hcase
      exact hmember rfl (SymbolKind.sameMember_iff.2 rfl) howner hraw hraw'

end ParsedQuery

/-- The case of a query for a function or a method does not matter, and neither does the case of the
owner in a query for a property: in every snapshot, two accepted query strings that differ only in
the case of ASCII letters have the same result, with the same usages and the same problems. -/
theorem Snapshot.findUsages_ignores_case (s : Snapshot) {raw raw' : String} {p p' : ParsedQuery}
    (hcase : Text.sameFolded raw raw' = true) (hraw : ParsedQuery.parse .unicode raw = .ok p)
    (hraw' : ParsedQuery.parse .unicode raw' = .ok p') (hform : p.SameForm p') :
    s.findUsages raw = s.findUsages raw' := by
  have hfolded : p.folded = p'.folded := by
    have hsame := ParsedQuery.parse_foldCase hraw
    rw [Text.sameFolded_iff.1 hcase, ParsedQuery.parse_foldCase hraw'] at hsame
    exact (Except.ok.inj hsame).symm
  have hsearch := Snapshot.searchQuery_respelled (s := s)
    (hform.respelled_bind s.catalog hfolded hraw hraw') s.indexProblems
  have hparse : s.parseQuery raw = .ok (Query.bind s.catalog p) := by
    rw [parseQuery, Query.parse, hraw]
    rfl
  have hparse' : s.parseQuery raw' = .ok (Query.bind s.catalog p') := by
    rw [parseQuery, Query.parse, hraw']
    rfl
  unfold findUsages find
  rw [hparse, hparse']
  simp only [hsearch]

/-- The call of the inherited method is found through a method that is written in capitals. -/
theorem Workspace.sketch_found_in_capitals :
    let s := (after { indirectCalls := [] } (sketch.map .setFile)).snapshot
    (s.findUsages "Shape::draw()").toOption.map (fun r =>
        (r.usages.map (fun u => (u.path, u.column)), r.diagnostics.map Diagnostic.file)) =
      some ([("canvas.php", 15)], [some "broken.php"]) ∧
      Text.sameFolded "Shape::draw()" "SHAPE::Draw()" = true ∧
      s.findUsages "Shape::draw()" = s.findUsages "SHAPE::Draw()" := by
  intro s
  have hcase : Text.sameFolded "Shape::draw()" "SHAPE::Draw()" = true := by decide +kernel
  have hraw : ParsedQuery.parse .unicode "Shape::draw()" =
      .ok (.member "Shape" "draw" (some .method)) := by
    decide +kernel
  have hraw' : ParsedQuery.parse .unicode "SHAPE::Draw()" =
      .ok (.member "SHAPE" "Draw" (some .method)) := by
    decide +kernel
  exact ⟨by decide +kernel, hcase,
    Snapshot.findUsages_ignores_case s hcase hraw hraw' (.method "Shape" "draw" "SHAPE" "Draw")⟩

end CrossReference
