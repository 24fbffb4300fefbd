import CrossReference.Proofs.Tree.Scopes

/-!
# What is collected of types

The walk that collects declarations goes over the same nodes as any other walk over a file, but it
leaves out expressions and types without a name. What it collects of types is told by the nodes that
it goes over: the head of a declaration gives the name of a type and its clauses, and a use of
traits gives clauses of the type around it.

* `Node.Spares` says that something does not stand in a part that is left out, and
  `Node.Spares.eq_false_of_mem_nodes` that it does not stand in an expression then.
* `Declarations.PassesOver` says when nodes can be left out.
* `Declarations.visits_collectStmts` is the induction over the tree. It is one for all ways to
  compare what is collected with what the nodes tell.
-/

namespace CrossReference

open CrossReference.Tree

/-! ## Parts that are left out -/

namespace Tree.Node

/-- A function without a name, or a type without a declared name. -/
def isEnclave : Node → Bool
  | expr (.closure _ _ _ _ _) => true
  | expr (.arrow _ _ _ _) => true
  | classDecl false _ => true
  | classDecl true (.mk _ none _ _ _) => true
  | _ => false

/-- No node inside an enclave of the node is a `p`. -/
def Spares (p : Node → Bool) (n : Node) : Prop :=
  ∀ k ∈ n.nodes, k.isEnclave = true → ∀ m ∈ k.below, p m = false

instance (p : Node → Bool) (n : Node) : Decidable (n.Spares p) :=
  inferInstanceAs (Decidable (∀ k ∈ n.nodes, k.isEnclave = true → ∀ m ∈ k.below, p m = false))

theorem Spares.children {p : Node → Bool} {n : Node} (h : n.Spares p) :
    ∀ m ∈ n.children, m.Spares p :=
  fun _ hm k hk => h k (below_subset_nodes n (nodes_subset_below hm hk))

/-- A node of an expression: no statement is right below it, unless it is an enclave. -/
def isExpression : Node → Bool
  | stmt _ => false
  | member _ => false
  | catchClause _ => false
  | classDecl isStatement _ => !isStatement
  | _ => true

theorem isExpression_of_mem_children {n m : Node} (hn : n.isExpression = true)
    (henclave : n.isEnclave = false) (hm : m ∈ n.children) : m.isExpression = true := by
  have hexprs : ∀ {es : List Expr}, m ∈ es.map expr → m.isExpression = true := by
    intro es h
    obtain ⟨e, _, rfl⟩ := List.mem_map.1 h
    rfl
  have hhint? : ∀ {hint : Option TypeHint}, m ∈ hint.toList.map typeHint →
      m.isExpression = true := by
    intro hint h
    obtain ⟨hint, _, rfl⟩ := List.mem_map.1 h
    rfl
  cases n with
  | expr e => cases e <;> simp [children, childrenOfExpr, -List.mem_map] at hm <;>
      grind [isExpression, isEnclave]
  | operand position target => cases target <;> simp [children] at hm; subst hm; rfl
  | memberName name => cases name <;> simp [children] at hm; subst hm; rfl
  | callee target => cases target <;> simp [children] at hm; subst hm; rfl
  | typeHint hint => exact absurd hm List.not_mem_nil
  | param p => cases p; exact (List.mem_append.1 hm).elim hhint? hexprs
  | constItem item => cases item; simp [children] at hm; subst hm; rfl
  | classDecl isStatement decl =>
      cases isStatement with
      | false => exact absurd henclave (by simp [isEnclave])
      | true => exact absurd hn (by simp [isExpression])
  | _ => exact absurd hn (by simp [isExpression])

/-- What no node of an expression itself can be, and no node inside an enclave is, none of its nodes
is. -/
theorem Spares.eq_false_of_mem_nodes {p : Node → Bool}
    (hp : ∀ n : Node, n.isExpression = true → p n = false) (n : Node) :
    n.isExpression = true → n.Spares p → ∀ k ∈ n.nodes, p k = false := by
  refine Node.induction (P := fun n => n.isExpression = true → n.Spares p →
    ∀ k ∈ n.nodes, p k = false) (fun n ih hn h k hk => ?_) n
  rw [nodes_eq, List.mem_cons] at hk
  rcases hk with rfl | hk
  · exact hp _ hn
  · by_cases henclave : n.isEnclave = true
    · exact h n n.mem_nodes_self henclave k hk
    · obtain ⟨m, hm, hk⟩ := List.mem_flatMap.1 hk
      exact ih m hm (isExpression_of_mem_children hn (Bool.eq_false_iff.2 henclave) hm)
        (h.children m hm) k hk

end Tree.Node

/-! ## What nodes tell of types -/

/-- What is told of a type: its name or one of its clauses. -/
inductive Header where
  | type (name : String)
  | clause (c : Clause)

/-- What a declaration tells of a type. -/
def Declared.headers : Declared → List Header
  | symbol s => if s.kind.isType then [.type s.qualifiedName] else []
  | clause c => [.clause c]

theorem Declared.eq_of_clause_mem_headers {d : Declared} {c : Clause}
    (h : Header.clause c ∈ d.headers) : d = .clause c := by
  cases d with
  | symbol s =>
      simp only [headers] at h
      split at h
      · exact absurd (List.mem_singleton.1 h) (by simp)
      · exact absurd h List.not_mem_nil
  | clause c' => rw [Header.clause.inj (List.mem_singleton.1 h)]

/-- The clauses that tie a type to the written names. -/
def Declarations.Site.headers (site : Site) (ctx : Context) (child : String) (relation : Relation)
    (parents : List Word) : List Header :=
  parents.map fun parent => .clause (site.clause ctx child relation parent)

/-- What the head of a declaration tells, if it declares a type by a name. -/
def ClassBody.headers (site : Declarations.Site) (b : ClassBody) : List Header :=
  if b.isDeclared then
    .type b.typeName :: (site.headers b.context b.typeName .extending b.decl.parents ++
      site.headers b.context b.typeName .implementing b.decl.interfaces)
  else
    []

/-- What a node tells of the type that it declares or of the one around it. -/
def PlacedNode.headers (site : Declarations.Site) (x : PlacedNode) : List Header :=
  match x.node with
  | .classDecl isStatement decl => ClassBody.headers site ⟨x.scope.context, isStatement, decl⟩
  | .member (.traitUse traits) =>
    site.headers x.scope.context x.scope.context.owner .mixingIn traits
  | _ => []

theorem PlacedNode.headers_of_classBody? {site : Declarations.Site} {x : PlacedNode} {b : ClassBody}
    (h : x.classBody? = some b) : x.headers site = b.headers site := by
  unfold classBody? at h
  split at h
  · rename_i isStatement decl hnode
    obtain rfl := Option.some.inj h
    rw [headers, hnode]
  · exact absurd h (by simp)

namespace Declarations

theorem Site.flatMap_headers (site : Site) (ctx : Context) (child : String) (relation : Relation)
    (parents : List Word) :
    (parents.map fun parent => Declared.clause (site.clause ctx child relation parent)).flatMap
      Declared.headers = site.headers ctx child relation parents := by
  rw [List.flatMap_map, headers, List.map_eq_flatMap]
  rfl

/-! ## The parts of the walk -/

/-- The walk goes over the nodes, and what it collects of types compares with what they tell. -/
abbrev Collector.Visits (R : List Header → List Header → Prop) (site : Site) (w : Collector)
    (ns : List Node) : Prop :=
  Walk.Visits R id (PlacedNode.headers site) Declared.headers w ns

/-- The walk may leave out nodes if none of them is a `p`, enclaves apart. -/
structure PassesOver (R : List Header → List Header → Prop) (p : Node → Bool) (site : Site) :
    Prop where
  expression : ∀ n : Node, n.isExpression = true → p n = false
  skip : ∀ ns : List Node, (∀ k ∈ ns.flatMap Node.nodes, p k = true → k.isEnclave = true) →
    Collector.Visits R site .skip ns

section Parts

variable {R : List Header → List Header → Prop} {p : Node → Bool} {site : Site}

/-- Expressions are left out. -/
theorem PassesOver.expressions (hp : PassesOver R p site) {ns : List Node}
    (hns : ∀ n ∈ ns, n.isExpression = true) (h : ∀ n ∈ ns, n.Spares p) :
    Collector.Visits R site .skip ns := by
  refine hp.skip ns fun k hk hkp => ?_
  obtain ⟨n, hn, hk⟩ := List.mem_flatMap.1 hk
  have hnone := Node.Spares.eq_false_of_mem_nodes hp.expression n (hns n hn) (h n hn) k hk
  exact absurd (hkp.symm.trans hnone) (by decide)

theorem PassesOver.each (hp : PassesOver R p site) {α : Type} {f : α → Node}
    (hf : ∀ a, (f a).isExpression = true) {l : List α} (h : ∀ n ∈ l.map f, n.Spares p) :
    Collector.Visits R site .skip (l.map f) := by
  refine hp.expressions (fun n hn => ?_) h
  obtain ⟨a, _, rfl⟩ := List.mem_map.1 hn
  exact hf a

theorem PassesOver.expr (hp : PassesOver R p site) {e : Expr} (h : (Node.expr e).Spares p) :
    Collector.Visits R site .skip [.expr e] :=
  hp.expressions (List.forall_mem_singleton.2 rfl) (List.forall_mem_singleton.2 h)

/-- A declaration of a type without a name is left out. -/
theorem PassesOver.nameless (hp : PassesOver R p site) {kind : ClassKind}
    {parents interfaces : List Word} {ms : List Member}
    (h : (Node.classDecl true (.mk kind none parents interfaces ms)).Spares p) :
    Collector.Visits R site .skip [.classDecl true (.mk kind none parents interfaces ms)] := by
  refine hp.skip _ fun k hk hkp => ?_
  rw [List.flatMap_singleton, Node.nodes_eq, List.mem_cons] at hk
  rcases hk with rfl | hk
  · rfl
  · have hnone := h _ (Node.mem_nodes_self _) rfl k hk
    exact absurd (hkp.symm.trans hnone) (by decide)

variable [Walk.Compares R]

/-- Symbols of functions, constants and members tell nothing of types. -/
theorem visits_symbols {f : Context → List Symbol}
    (h : ∀ ctx, ∀ s ∈ f ctx, s.kind.isType = false) :
    Collector.Visits R site (.meetAll fun ctx => (f ctx).map .symbol) [] := by
  intro t ctx htc
  have hnone : ((f ctx).map Declared.symbol).flatMap Declared.headers = [] := by
    refine List.flatMap_eq_nil_iff.2 fun d hd => ?_
    obtain ⟨s, hs, rfl⟩ := List.mem_map.1 hd
    simp [Declared.headers, h ctx s hs]
  rw [Walk.meetAll_run, hnone]
  exact ⟨Walk.Compares.refl [], htc⟩

theorem visits_symbol {f : Context → Symbol} (h : ∀ ctx, (f ctx).kind.isType = false) :
    Collector.Visits R site (.meet fun ctx => .symbol (f ctx)) [] :=
  visits_symbols (f := fun ctx => [f ctx]) fun ctx => List.forall_mem_singleton.2 (h ctx)

theorem isType_of_mem_promotedIn {site : Site} {ctx : Context} {owner method : String}
    {ps : List Param} {s : Symbol} (hs : s ∈ site.promotedIn ctx owner method ps) :
    s.kind.isType = false := by
  unfold Site.promotedIn at hs
  split at hs
  · obtain ⟨⟨name, hint, doc, default, promoted, span⟩, _, hs⟩ := List.mem_filterMap.1 hs
    obtain ⟨visibility, _, rfl⟩ := Option.map_eq_some_iff.1 hs
    simp [Site.symbol, SymbolKind.isType]
  · exact absurd hs List.not_mem_nil

theorem visits_traitUse (traits : List Word) :
    Collector.Visits R site (.meetAll fun ctx =>
      traits.map fun t => .clause (site.clause ctx ctx.owner .mixingIn t))
      [.member (.traitUse traits)] := by
  refine Walk.visits_leaf rfl fun t ctx htc => ⟨?_, htc⟩
  obtain rfl : t.context = ctx := htc
  exact site.flatMap_headers t.context _ _ traits

theorem visits_enterNamespace (name : Option Word) :
    Collector.Visits R site (.change (·.enterNamespace (name.map Word.text)))
      [.stmt (.namespaceLine name)] :=
  Walk.visits_leaf rfl fun _ _ htc => ⟨rfl, congrArg (·.enterNamespace (name.map Word.text)) htc⟩

theorem visits_importAll (kind : NameKind) (items : List ImportItem) :
    Collector.Visits R site (importAll kind items) [.stmt (.imports kind items)] := by
  refine Walk.visits_leaf rfl fun t ctx htc => ⟨rfl, ?_⟩
  obtain rfl : t.context = ctx := htc
  rfl

/-- A declaration of a type with a name. -/
theorem visits_named {kind : ClassKind} {name : Word} {parents interfaces : List Word}
    {ms : List Member} (h : Collector.Visits R site (collectMembers site ms) (ms.map .member)) :
    Collector.Visits R site (collectClass site (.mk kind (some name) parents interfaces ms))
      [.classDecl true (.mk kind (some name) parents interfaces ms)] := by
  let first : Collector := .inOrder [
    .meet fun ctx => .symbol (site.classLike ctx kind name ms),
    .meetAll fun ctx => parents.map fun p =>
      .clause (site.clause ctx (ctx.qualify name.text) .extending p),
    .meetAll fun ctx => interfaces.map fun i =>
      .clause (site.clause ctx (ctx.qualify name.text) .implementing i),
    .change fun ctx => ctx.pushType (ctx.qualify name.text)]
  have hwalk : collectClass site (.mk kind (some name) parents interfaces ms) =
      .inOrder [first, collectMembers site ms, .change Context.popType] := by
    simp only [collectClass, first, Walk.inOrder, Walk.andThen_assoc, Walk.skip_andThen]
  rw [hwalk]
  refine Walk.visits_scoped (fun t ctx htc => ?_) (fun _ _ htc => congrArg Context.popType htc) h
  obtain rfl : t.context = ctx := htc
  refine ⟨?_, rfl⟩
  simp only [first, Walk.inOrder, Walk.andThen_run, Walk.meet_run, Walk.meetAll_run,
    Walk.change_run, Walk.skip_run, List.append_nil, List.flatMap_append, List.flatMap_singleton,
    Site.flatMap_headers]
  simp [Declared.headers, Site.classLike, Site.symbol, SymbolKind.isType, PlacedNode.headers,
    ClassBody.headers, ClassBody.isDeclared, ClassDecl.name?, ClassDecl.parents,
    ClassDecl.interfaces, ClassBody.typeName, Tracker.bodyName]

end Parts

/-! ## The induction over the tree -/

section Tree

variable {R : List Header → List Header → Prop} [Walk.Compares R] {p : Node → Bool} {site : Site}

mutual

-- What is right below a statement is an expression, which is left out, or a part that is entered.
theorem visits_collectStmt (hp : PassesOver R p site) : (s : Stmt) → (Node.stmt s).Spares p →
    Collector.Visits R site (collectStmt site s) [.stmt s]
  | .namespaceLine name, _ => visits_enterNamespace name
  | .namespaceBlock name body, h =>
      Walk.visits_scoped
        (fun _ _ htc => ⟨rfl, congrArg (·.enterNamespace (name.map Word.text)) htc⟩)
        (fun _ _ htc => congrArg (·.enterNamespace none) htc)
        (visits_collectStmts hp body h.children)
  | .imports kind items, _ => visits_importAll kind items
  | .classLike decl, h =>
      .node rfl (fun _ => rfl)
        (visits_collectClass hp decl (h.children _ (List.mem_singleton_self _)))
  | .function name ps returns body, h => by
      have hall := List.forall_mem_append.1 h.children
      have hrest := List.forall_mem_append.1 hall.2
      have hsymbol : Collector.Visits R site
          (.meet fun ctx => .symbol (site.function ctx name returns)) [] :=
        visits_symbol fun _ => by simp [Site.function, Site.symbol, SymbolKind.isType]
      exact .node rfl (fun _ => rfl) ((hp.each (fun _ => rfl) hall.1).andThen
        ((hp.each (fun _ => rfl) hrest.1).andThen
          (hsymbol.inOrder_cons (visits_collectStmts hp body hrest.2).inOrder_last)))
  | .constants items, h => .node rfl (fun _ => rfl) (visits_collectConstants hp items h.children)
  | .branch _ thenBody elseBody, h => by
      have hall := List.forall_mem_cons.1 h.children
      have hbodies := List.forall_mem_append.1 hall.2
      exact .node rfl (fun _ => rfl) ((hp.expr hall.1).andThen
        ((visits_collectStmts hp thenBody hbodies.1).inOrder_cons
          (visits_collectStmts hp elseBody hbodies.2).inOrder_last))
  | .loop _ body, h => by
      have hall := List.forall_mem_append.1 h.children
      exact .node rfl (fun _ => rfl) ((hp.each (fun _ => rfl) hall.1).andThen
        (visits_collectStmts hp body hall.2))
  | .forEach subject key element body, h => by
      have hall := List.forall_mem_cons.1 h.children
      have hkey := List.forall_mem_append.1 hall.2
      have hrest := List.forall_mem_cons.1 hkey.2
      exact .node rfl (fun _ => rfl) ((hp.expr hall.1).andThen
        ((hp.each (fun _ => rfl) hkey.1).andThen
          ((hp.expr hrest.1).andThen (visits_collectStmts hp body hrest.2))))
  | .attempt body catches cleanup, h => by
      have hall := List.forall_mem_append.1 h.children
      have hrest := List.forall_mem_append.1 hall.2
      exact .node rfl (fun _ => rfl) ((visits_collectStmts hp body hall.1).inOrder_cons
        ((visits_collectCatches hp catches hrest.1).inOrder_cons
          (visits_collectStmts hp cleanup hrest.2).inOrder_last))
  | .block body, h => .node rfl (fun _ => rfl) (visits_collectStmts hp body h.children)
  | .expr e, h => .node rfl (fun _ => rfl) (hp.expr (List.forall_mem_singleton.1 h.children))
  | .returned e, h => .node rfl (fun _ => rfl) (hp.each (fun _ => rfl) h.children)
  | .echo es, h => .node rfl (fun _ => rfl) (hp.each (fun _ => rfl) h.children)
  | .varDoc _ _, _ => .node rfl (fun _ => rfl) Walk.visits_skip
  | .globals _, _ => .node rfl (fun _ => rfl) Walk.visits_skip

theorem visits_collectStmts (hp : PassesOver R p site) : (ss : List Stmt) →
    (∀ n ∈ ss.map Node.stmt, n.Spares p) →
    Collector.Visits R site (collectStmts site ss) (ss.map .stmt)
  | [], _ => Walk.visits_skip
  | s :: ss, h => by
      rw [List.map_cons, List.forall_mem_cons] at h
      exact (visits_collectStmt hp s h.1).andThen (visits_collectStmts hp ss h.2)

theorem visits_collectConstants (hp : PassesOver R p site) : (items : List ConstItem) →
    (∀ n ∈ items.map Node.constItem, n.Spares p) →
    Collector.Visits R site (collectConstants site items) (items.map .constItem)
  | [], _ => Walk.visits_skip
  | .mk name e :: items, h => by
      rw [List.map_cons, List.forall_mem_cons] at h
      have hsymbol : Collector.Visits R site (.meet fun ctx =>
          .symbol (site.symbol .constant (ctx.qualify name.text) name.span)) [] :=
        visits_symbol fun _ => by simp [Site.symbol, SymbolKind.isType]
      exact .node_cons rfl (fun _ => rfl)
        ((hp.expr (List.forall_mem_singleton.1 h.1.children)).andThen
          (hsymbol.andThen (visits_collectConstants hp items h.2)))

theorem visits_collectCatches (hp : PassesOver R p site) : (catches : List Catch) →
    (∀ n ∈ catches.map Node.catchClause, n.Spares p) →
    Collector.Visits R site (collectCatches site catches) (catches.map .catchClause)
  | [], _ => Walk.visits_skip
  | .mk _ _ body :: catches, h => by
      rw [List.map_cons, List.forall_mem_cons] at h
      exact .node_cons rfl (fun _ => rfl) ((visits_collectStmts hp body h.1.children).andThen
        (visits_collectCatches hp catches h.2))

theorem visits_collectClass (hp : PassesOver R p site) : (decl : ClassDecl) →
    (Node.classDecl true decl).Spares p →
    Collector.Visits R site (collectClass site decl) [.classDecl true decl]
  | .mk _ none _ _ _, h => hp.nameless h
  | .mk _ (some _) _ _ ms, h => visits_named (visits_collectMembers hp ms h.children)

theorem visits_collectMembers (hp : PassesOver R p site) : (ms : List Member) →
    (∀ n ∈ ms.map Node.member, n.Spares p) →
    Collector.Visits R site (collectMembers site ms) (ms.map .member)
  | [], _ => Walk.visits_skip
  | m :: ms, h => by
      rw [List.map_cons, List.forall_mem_cons] at h
      exact (visits_collectMember hp m h.1).andThen (visits_collectMembers hp ms h.2)

theorem visits_collectMember (hp : PassesOver R p site) : (m : Member) →
    (Node.member m).Spares p → Collector.Visits R site (collectMember site m) [.member m]
  | .method name visibility isStatic ps returns body, h => by
      have hall := List.forall_mem_append.1 h.children
      have hrest := List.forall_mem_append.1 hall.2
      have hsymbols : Collector.Visits R site (.meetAll fun ctx =>
          (site.method ctx ctx.owner name visibility isStatic returns ::
            site.promotedIn ctx ctx.owner name.text ps).map .symbol) [] :=
        visits_symbols fun _ => List.forall_mem_cons.2
          ⟨by simp [Site.method, Site.symbol, SymbolKind.isType],
            fun _ => isType_of_mem_promotedIn⟩
      exact .node rfl (fun _ => rfl) ((hp.each (fun _ => rfl) hall.1).andThen
        ((hp.each (fun _ => rfl) hrest.1).andThen
          (hsymbols.inOrder_cons (visits_collectStmts hp body hrest.2).inOrder_last)))
  | .property name visibility isStatic hint doc _, h => by
      have hall := List.forall_mem_append.1 h.children
      have hbelow := (hp.each (fun _ => rfl) hall.1).andThen (hp.each (fun _ => rfl) hall.2)
      have hsymbol : Collector.Visits R site (.meet fun ctx =>
          .symbol (site.property ctx ctx.owner name visibility isStatic hint doc)) [] :=
        visits_symbol fun _ => by simp [Site.property, Site.symbol, SymbolKind.isType]
      exact .node rfl (fun _ => rfl) (hsymbol.before_skip hbelow)
  | .constant name visibility e, h => by
      have hsymbol : Collector.Visits R site (.meet fun ctx =>
          .symbol (site.constant ctx.owner name visibility)) [] :=
        visits_symbol fun _ => by simp [Site.constant, Site.symbol, SymbolKind.isType]
      exact .node rfl (fun _ => rfl)
        (hsymbol.before_skip (hp.expr (List.forall_mem_singleton.1 h.children)))
  | .enumCase name e, h => by
      have hsymbol : Collector.Visits R site (.meet fun ctx =>
          .symbol (site.enumCase ctx.owner name)) [] :=
        visits_symbol fun _ => by simp [Site.enumCase, Site.symbol, SymbolKind.isType]
      exact .node rfl (fun _ => rfl) (hsymbol.before_skip (hp.each (fun _ => rfl) h.children))
  | .traitUse traits, _ => visits_traitUse traits

end

end Tree

/-- What is collected of the types of a file, against what the nodes of the file tell. -/
theorem PassesOver.collectStmts {R : List Header → List Header → Prop} [Walk.Compares R]
    {p : Node → Bool} {site : Site} (hp : PassesOver R p site) {ss : List Stmt}
    (h : ∀ n ∈ ss.map Node.stmt, n.Spares p) :
    R (((collectStmts site ss).run ∅).1.flatMap Declared.headers)
      ((placedNodes ss).flatMap (PlacedNode.headers site)) :=
  (visits_collectStmts hp ss h {} ∅ rfl).1

end Declarations
end CrossReference
