import CrossReference.Proofs.Catalog.Lookup
import CrossReference.Proofs.Declaration.ClauseNames
import CrossReference.Proofs.Usage.Landmarks
import CrossReference.Proofs.Scope.Decided
import CrossReference.Proofs.Workspace.Clauses

/-!
# Names that are resolved later

The walk over usages resolves a class name where it stands. The clauses of a file are collected
before all files are known, so for a name in a clause only the candidates are kept, and linking
picks one of them. Both take the first candidate that is declared, or else the first, but the walk
gives it as it is written and linking as it is declared. So both give the same name up to leading
separators and case, and linking ties a type to what the walk resolves at its clause.

* `Catalog.choose?` is the common choice. `Catalog.resolve?_eq_choose?` finds it in what linking
  picks, and `Resolver.choose?_candidates` in what the walk resolves.
* `Resolver.exists_resolve?_candidates` compares the two.
* `deferred_names_agree` is the result for every catalog, and for the clauses of every indexed file.
-/

namespace CrossReference

open CrossReference.Tree

/-- A name that neither stands for a type of its surroundings nor is made of separators only. -/
def Name.Ordinary (name : String) : Prop :=
  isSelfKeyword name = false ∧ isParentKeyword name = false ∧ bare name ≠ ""

instance (name : String) : Decidable (Name.Ordinary name) :=
  inferInstanceAs (Decidable (_ ∧ _ ∧ _))

/-! ## The candidate that counts -/

namespace Catalog

/-- The first candidate that is a declared type, else the first candidate. -/
def choose? (c : Catalog) (candidates : Candidates) : Option String :=
  (candidates.find? c.hasType).or candidates.head?

theorem findSome?_lookupType? (c : Catalog) (candidates : Candidates) :
    candidates.findSome? c.lookupType? = (candidates.find? c.hasType).bind c.lookupType? := by
  induction candidates with
  | nil => rfl
  | cons name rest ih =>
      cases h : c.lookupType? name with
      | none => simp [hasType, h, ih]
      | some s => simp [hasType, h]

/-- Linking picks the candidate that counts, under the name of its declaration. -/
theorem resolve?_eq_choose? (c : Catalog) (candidates : Candidates) :
    c.resolve? candidates = (c.choose? candidates).map c.declaredName := by
  unfold resolve? choose?
  rw [findSome?_lookupType?]
  cases hfind : candidates.find? c.hasType with
  | some name =>
      have htype : c.hasType name = true := List.find?_some hfind
      obtain ⟨s, hs⟩ := Option.isSome_iff_exists.1 htype
      simp [hs, declaredName]
  | none =>
      cases candidates with
      | nil => rfl
      | cons name rest =>
          have hnone : c.lookupType? name = none := by
            simpa [hasType] using List.find?_eq_none.1 hfind name List.mem_cons_self
          simp [declaredName, hnone]

end Catalog

namespace Resolver

variable (r : Resolver) (ctx : Context) {raw : String}

/-- The walk resolves a class name to the candidate that counts. -/
theorem choose?_candidates (raw : String) :
    r.catalog.choose? (ctx.candidates .classLike raw) =
      some (r.resolveReading ctx .classLike raw).name := by
  have hne := ctx.candidates_ne_nil .classLike raw
  unfold Context.candidates at hne ⊢
  unfold resolveReading
  generalize Reading.ofName ctx .classLike raw = reading at hne ⊢
  cases reading with
  | definite name =>
      simp only [Reading.candidates, Catalog.choose?, List.find?_singleton]
      split <;> rfl
  | search candidates =>
      have hdeclared : r.isDeclared .classLike = r.catalog.hasType := rfl
      simp only [Reading.candidates, Catalog.choose?, searchFor, hdeclared] at hne ⊢
      cases candidates.find? r.catalog.hasType with
      | some found => rfl
      | none =>
          -- No class is a builtin, so the first candidate is kept.
          have hbuiltin : r.isBuiltin .classLike raw = false := by simp [isBuiltin]
          obtain ⟨name, rest, rfl⟩ := List.exists_cons_of_ne_nil hne
          simp [hbuiltin, Resolved.name]

theorem resolve_of_ordinary (h : Name.Ordinary raw) :
    r.resolve ctx .classLike raw = r.resolveReading ctx .classLike raw := by
  obtain ⟨hself, hparent, hbare⟩ := h
  exact r.resolve_eq_resolveReading ctx hbare fun _ => ⟨hself, hparent⟩

theorem exists_resolve?_candidates (hc : r.catalog.Owned) (h : Name.Ordinary raw) :
    ∃ picked, r.catalog.resolve? (ctx.candidates .classLike raw) = some picked ∧
      Name.same picked (r.resolve ctx .classLike raw).name = true := by
  rw [Catalog.resolve?_eq_choose?, choose?_candidates, resolve_of_ordinary r ctx h]
  exact ⟨_, rfl, Name.same_iff.2 (Catalog.key_declaredName hc _)⟩

end Resolver

/-! ## Clauses and what is resolved at them -/

theorem SourceFile.declarations_eq_collect (f : SourceFile) (id : FileId) :
    f.declarations id = Declarations.collect id (.ofText f.text) f.stmts := by
  unfold declarations stmts
  cases f.tree with
  | none => rfl
  | some ss => rfl

/-- A clause of an indexed file ties its type to what the walk resolves at the name that it was
collected for, or else it is refused. -/
theorem Workspace.clause_linked_as_resolved (settings : Settings) (calls : List Workspace.Call)
    (builtins : Builtins) {id : FileId} {f : SourceFile}
    (hf : (after settings calls).files.find? id = some f) {clause : Clause}
    (hclause : clause ∈ (f.declarations id).clauses) {o : Occurrence} {lines : Lines}
    (hgives : o.Gives lines clause) (hordinary : Name.Ordinary o.name.text) :
    let c := (after settings calls).snapshot.catalog
    let resolved := ((Resolver.mk c builtins).resolve o.context .classLike o.name.text).name
    Xor (c.graph.Ties clause.child resolved clause.relation)
      (∃ r ∈ c.rejected, r.file = id ∧ r.line = clause.line ∧ ∃ picked,
        Name.same picked resolved = true ∧
          c.graph.Refuses clause.child picked clause.relation r.reason) := by
  intro c resolved
  have hw := snapshotLinked_after settings calls
  have haccounts := accounts_snapshot settings calls
  obtain ⟨picked, hpicked, hsame⟩ :=
    (Resolver.mk c builtins).exists_resolve?_candidates o.context hw.owned hordinary
  rw [← hgives.parent] at hpicked
  rcases haccounts.xor (hw.mem_allClauses hf hclause) hpicked with
    ⟨hlinked, _⟩ | ⟨⟨r, hr, hfile, hline, hrefuses⟩, hnot⟩
  · have hresolved := (Graph.ties_congr hsame).1 hlinked
    refine .inl ⟨hresolved, ?_⟩
    -- Whatever the spelling in the reason, it would refuse an edge that is there.
    rintro ⟨r, _, _, _, other, hother, hrefuses⟩
    exact hw.wellFormed.not_refuses ((Graph.ties_congr hother).2 hresolved) r.reason hrefuses
  · refine .inr ⟨⟨r, hr, hfile, hline, picked, hsame, hrefuses⟩, ?_⟩
    intro hresolved
    exact hnot ((Graph.ties_congr hsame).2 hresolved)

/-- Names that are resolved later are resolved as at once.

* After any changes to a catalog and at any place, take a class name that neither stands for a type
  of its surroundings nor is made of separators only. What linking picks from its candidates is what
  it stands for at once, up to leading separators and case.
* After any calls, take a clause of an indexed file in which no namespace and no import stands
  inside a function without a name or a type without a declared name. The clause was collected for a
  name that the walk over the file meets. If the name is such a one, then the type of the clause is
  tied to what the walk resolves there, or else the clause is refused, and not both. -/
theorem deferred_names_agree :
    (∀ (changes : List Catalog.Change) (builtins : Builtins) (ctx : Context) (raw : String),
      Name.Ordinary raw →
        let c := Catalog.after changes
        ∃ picked, c.resolve? (ctx.candidates .classLike raw) = some picked ∧
          Name.same picked ((Resolver.mk c builtins).resolve ctx .classLike raw).name = true) ∧
    ∀ (settings : Settings) (calls : List Workspace.Call) (query : Query) (id : FileId)
      (f : SourceFile),
      let w := Workspace.after settings calls
      let c := w.snapshot.catalog
      let s := Search.ofQuery c w.settings query
      w.files.find? id = some f → SteadyNames f.stmts → ∀ clause ∈ (f.declarations id).clauses,
        ∃ o ∈ occurrences f.stmts, o.Gives (.ofText f.text) clause ∧
          (∃ e ∈ eventsOf s.resolver s.settings.hopLimit f.stmts, e.use? = some o.use) ∧
          (Name.Ordinary o.name.text →
            let resolved := (s.resolver.resolve o.context .classLike o.name.text).name
            Xor (c.graph.Ties clause.child resolved clause.relation)
              (∃ r ∈ c.rejected, r.file = id ∧ r.line = clause.line ∧ ∃ picked,
                Name.same picked resolved = true ∧
                  c.graph.Refuses clause.child picked clause.relation r.reason)) := by
  constructor
  · intro changes builtins ctx raw hraw c
    exact (Resolver.mk c builtins).exists_resolve?_candidates ctx (Catalog.owned_after changes) hraw
  · intro settings calls query id f w c s hf hsteady clause hclause
    obtain ⟨o, ho, hgives⟩ : ∃ o ∈ occurrences f.stmts, o.Gives (.ofText f.text) clause := by
      rw [SourceFile.declarations_eq_collect] at hclause
      exact exists_occurrence_of_mem_clauses hsteady id _ hclause
    refine ⟨o, ho, hgives, ?_, ?_⟩
    · have huse : o.use ∈ (occurrences f.stmts).map Occurrence.use := List.mem_map_of_mem ho
      rw [← use?_eventsOf s.resolver s.settings.hopLimit f.stmts] at huse
      exact List.mem_filterMap.1 huse
    · intro hordinary
      exact Workspace.clause_linked_as_resolved settings calls w.settings.builtins hf hclause hgives
        hordinary

/-- A class in a namespace that extends a class of the global one and uses a trait of it. -/
def circleFile : SourceFile where
  path := "circle.php"
  text := "namespace App; class Circle extends shape \x7b use \\LOUD; \x7d"
  tree := some
    [.namespaceLine (some ⟨"App", ⟨10, 13⟩⟩),
      .classLike (.mk .classDecl (some ⟨"Circle", ⟨21, 27⟩⟩) [⟨"shape", ⟨36, 41⟩⟩] [] [
        .traitUse [⟨"\\LOUD", ⟨48, 53⟩⟩]])]

/-- The class and the trait. -/
def shapeFile : SourceFile where
  path := "shape.php"
  text := "class Shape \x7b\x7d trait Loud \x7b\x7d"
  tree := some
    [.classLike (.mk .classDecl (some ⟨"Shape", ⟨6, 11⟩⟩) [] [] []),
      .classLike (.mk .traitDecl (some ⟨"Loud", ⟨21, 25⟩⟩) [] [] [])]

/-- Linking picks the class as it is declared, the walk resolves it as it is written, and the class
in the namespace is tied to it. -/
theorem circle_tied_to_shape :
    let w := Workspace.after {} [.setFile circleFile, .setFile shapeFile]
    let c := w.snapshot.catalog
    let s := Search.ofQuery c w.settings (.type "Shape")
    let ctx := Context.inNamespace "App"
    c.resolve? (ctx.candidates .classLike "shape") = some "Shape" ∧
      s.resolver.resolve ctx .classLike "shape" = .qualified "shape" ∧
      (let r : Resolver := { catalog := .after Catalog.knot }
        ∃ picked, r.catalog.resolve? (ctx.candidates .classLike "shape") = some picked ∧
          Name.same picked (r.resolve ctx .classLike "shape").name = true) ∧
      ∃ o ∈ occurrences circleFile.stmts, o.name = ⟨"shape", ⟨36, 41⟩⟩ ∧
        c.graph.Ties "App\\Circle" (s.resolver.resolve o.context .classLike o.name.text).name
          .extending := by
  intro w c s ctx
  obtain ⟨hpicked, hresolved, hrejected, hsteady, hclause, hnames, hordinary⟩ :
      c.resolve? (ctx.candidates .classLike "shape") = some "Shape" ∧
      s.resolver.resolve ctx .classLike "shape" = .qualified "shape" ∧ c.rejected = [] ∧
      SteadyNames circleFile.stmts ∧
      (⟨"App\\Circle", ["App\\shape", "shape"], .extending, 0⟩ : Clause) ∈
        (circleFile.declarations ⟨0⟩).clauses ∧
      (∀ o ∈ occurrences circleFile.stmts, o.position = .extended →
        o.name = ⟨"shape", ⟨36, 41⟩⟩) ∧
      Name.Ordinary "shape" := by
    decide +kernel
  obtain ⟨hagree, hlinked⟩ := deferred_names_agree
  obtain ⟨o, ho, hgives, _, hlinked⟩ := hlinked {} [.setFile circleFile, .setFile shapeFile]
    (.type "Shape") ⟨0⟩ circleFile rfl hsteady _ hclause
  have hname := hnames o ho hgives.position
  refine ⟨hpicked, hresolved, hagree Catalog.knot {} ctx "shape" hordinary, o, ho, hname, ?_⟩
  rcases hlinked (by rw [hname]; exact hordinary) with ⟨htied, _⟩ | ⟨⟨r, hr, _⟩, _⟩
  · exact htied
  · have hr : r ∈ c.rejected := hr
    rw [hrejected] at hr
    exact absurd hr List.not_mem_nil

end CrossReference
