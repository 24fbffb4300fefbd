import CrossReference.Proofs.Declaration.Headers
import CrossReference.Proofs.Usage.Occurrences

/-!
# The names of clauses

Each clause that is collected stands in the text as a name of an extends, implements or use clause.
The walk over usages meets that name too. The walk over declarations keeps track of namespaces and
imports on its own and leaves expressions out; where no expression has a namespace or an import
inside, both walks have the same in force at the name.

* `PlacedNode.exists_occurrence_of_mem_headers` finds the name of a clause that a node tells of.
* `exists_occurrence_of_mem_clauses` draws the conclusion for a file.
-/

namespace CrossReference

open CrossReference.Tree

/-! ## Files with steady names -/

namespace Tree.Node

theorem changesNames_of_isExpression (n : Node) (hn : n.isExpression = true) :
    n.changesNames = false := by
  cases n with
  | stmt s => exact absurd hn (by simp [isExpression])
  | _ => rfl

theorem changesNames_of_isEnclave {n : Node} (hn : n.isEnclave = true) :
    n.changesNames = false := by
  cases n with
  | stmt s => exact absurd hn (by simp [isEnclave])
  | _ => rfl

end Tree.Node

/-- No namespace and no import stands inside a function without a name or inside a type without a
declared name. -/
def SteadyNames (ss : List Stmt) : Prop :=
  ∀ n ∈ ss.map Node.stmt, n.Spares Node.changesNames

instance (ss : List Stmt) : Decidable (SteadyNames ss) :=
  inferInstanceAs (Decidable (∀ n ∈ ss.map Node.stmt, n.Spares Node.changesNames))

/-- What does not change the namespace can be left out, if not all that the nodes tell has to be
collected. -/
theorem Declarations.passesOver_sublist (site : Site) :
    PassesOver List.Sublist Node.changesNames site where
  expression := Node.changesNames_of_isExpression
  skip := by
    intro ns h t ctx htc
    have hnone : ∀ k ∈ ns.flatMap Node.nodes, k.changesNames = false := by
      intro k hk
      cases hchanges : k.changesNames with
      | false => rfl
      | true => exact hchanges.symm.trans (Node.changesNames_of_isEnclave (h k hk hchanges))
    refine ⟨List.nil_sublist _, ?_⟩
    rw [Node.context_visitAll hnone]
    exact htc

/-! ## Names that clauses are collected for -/

/-- Where the name of a clause stands. -/
def NamePosition.ofRelation : Relation → NamePosition
  | .extending => .extended
  | .implementing => .implemented
  | .mixingIn => .mixedIn

/-- The clause is the one that is collected for the name. -/
structure Occurrence.Gives (lines : Lines) (o : Occurrence) (clause : Clause) : Prop where
  position : o.position = .ofRelation clause.relation
  parent : clause.parent = o.context.candidates .classLike o.name.text
  line : clause.line = (lines.position o.name.span.start).line

namespace PlacedNode

theorem exists_named_of_mem_headers {site : Declarations.Site} {x : PlacedNode} {child : String}
    {relation : Relation} {parents : List Word} {clause : Clause}
    (h : .clause clause ∈ site.headers x.scope.context child relation parents) :
    ∃ o ∈ x.named (.ofRelation relation) parents, o.Gives site.lines clause := by
  obtain ⟨parent, hparent, heq⟩ := List.mem_map.1 h
  obtain rfl := Header.clause.inj heq
  exact ⟨_, List.mem_map_of_mem hparent, rfl, rfl, rfl⟩

theorem exists_occurrence_of_mem_headers {site : Declarations.Site} {x : PlacedNode}
    {clause : Clause} (h : .clause clause ∈ x.headers site) :
    ∃ o ∈ x.occurrences, o.Gives site.lines clause := by
  obtain ⟨scope, node⟩ := x
  cases node with
  | classDecl isStatement decl =>
      simp only [headers, ClassBody.headers] at h
      split at h
      · rcases List.mem_cons.1 h with h | h
        · exact absurd h (by simp)
        · rcases List.mem_append.1 h with h | h
          · obtain ⟨o, ho, hgives⟩ := exists_named_of_mem_headers
              (x := ⟨scope, .classDecl isStatement decl⟩) h
            exact ⟨o, List.mem_append_left _ ho, hgives⟩
          · obtain ⟨o, ho, hgives⟩ := exists_named_of_mem_headers
              (x := ⟨scope, .classDecl isStatement decl⟩) h
            exact ⟨o, List.mem_append_right _ ho, hgives⟩
      · exact absurd h List.not_mem_nil
  | member m =>
      cases m with
      | traitUse traits =>
          exact exists_named_of_mem_headers (x := ⟨scope, .member (.traitUse traits)⟩) h
      | _ => exact absurd h List.not_mem_nil
  | _ => exact absurd h List.not_mem_nil

end PlacedNode

/-- Each clause of a file with steady names is collected for a name of the file. -/
theorem exists_occurrence_of_mem_clauses {ss : List Stmt} (h : SteadyNames ss) (file : FileId)
    (lines : Lines) {clause : Clause}
    (hclause : clause ∈ (Declarations.collect file lines ss).clauses) :
    ∃ o ∈ occurrences ss, o.Gives lines clause := by
  obtain ⟨d, hd, hsome⟩ := List.mem_filterMap.1 hclause
  cases d with
  | symbol s => exact absurd hsome (by simp [Declared.clause?])
  | clause c =>
      obtain rfl := Option.some.inj hsome
      have hcollected : Header.clause c ∈ _ := List.mem_flatMap_of_mem hd
        (f := Declared.headers) (List.mem_singleton_self _)
      have hsublist := (Declarations.passesOver_sublist ⟨file, lines⟩).collectStmts h
      obtain ⟨x, hx, hheader⟩ := List.mem_flatMap.1 (hsublist.subset hcollected)
      obtain ⟨o, ho, hgives⟩ := PlacedNode.exists_occurrence_of_mem_headers hheader
      exact ⟨o, List.mem_flatMap_of_mem hx ho, hgives⟩

end CrossReference
