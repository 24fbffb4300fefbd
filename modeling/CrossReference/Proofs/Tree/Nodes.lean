import CrossReference.Tree.Node

/-!
# The nodes of a tree

A tree read as one kind of thing: every piece of it is a `Node`, and `Node.children` lists the
pieces right below a node. Whatever is said of "all nodes" of a file is said of `Node.nodes`, which
knows no more of the shape of a tree than `Node.children` does.

* `Node.induction` goes from the children of a node to the node.
* `Node.nodes_eq` unfolds the nodes of a node by one step.
-/

namespace CrossReference
namespace Tree

/-- What a class is there for in an expression. -/
inductive OperandPosition where
  /-- An object of it is made. -/
  | instantiated
  /-- A static method or property of it is accessed. -/
  | accessed
  /-- A constant of it is read. -/
  | constantOwner
  /-- A value is tested for it. -/
  | tested
deriving DecidableEq, Inhabited

/-- A piece of a tree. -/
inductive Node where
  | expr (e : Expr)
  | operand (position : OperandPosition) (target : ClassRef)
  | memberName (name : MemberName)
  | callee (callee : Callee)
  /-- The type of a parameter, a property or a result. -/
  | typeHint (hint : TypeHint)
  | param (p : Param)
  /-- A declaration of a type, which is a statement or part of the expression that makes an object
  of it. -/
  | classDecl (isStatement : Bool) (decl : ClassDecl)
  | member (m : Member)
  | stmt (s : Stmt)
  | constItem (item : ConstItem)
  | catchClause (clause : Catch)

namespace Node

/-- The pieces right below an expression. Where one is evaluated before another, it comes first. -/
def childrenOfExpr : Expr → List Node
  | .var _ _ => []
  | .text _ _ => []
  | .literal _ => []
  | .new target args _ => operand .instantiated target :: args.map expr
  | .newAnonymous decl args _ => args.map expr ++ [classDecl false decl]
  | .call target args _ => callee target :: args.map expr
  | .methodCall receiver method args _ _ => expr receiver :: memberName method :: args.map expr
  | .property receiver name _ _ => [expr receiver, memberName name]
  | .staticCall target method args _ =>
    operand .accessed target :: memberName method :: args.map expr
  | .staticProperty target name _ => [operand .accessed target, memberName name]
  | .classConstant target _ _ => [operand .constantOwner target]
  | .constant _ => []
  | .instanceOf subject target _ => [expr subject, operand .tested target]
  | .assign target assigned _ => [expr assigned, expr target]
  | .array items _ => items.map expr
  | .closure params _ returns body _ =>
    params.map param ++ (returns.toList.map typeHint ++ body.map stmt)
  | .arrow params returns body _ =>
    params.map param ++ (returns.toList.map typeHint ++ [expr body])
  | .compound children _ => children.map expr

/-- The pieces right below a member. -/
def childrenOfMember : Member → List Node
  | .method _ _ _ params returns body =>
    params.map param ++ (returns.toList.map typeHint ++ body.map stmt)
  | .property _ _ _ hint _ default => hint.toList.map typeHint ++ default.toList.map expr
  | .constant _ _ e => [expr e]
  | .enumCase _ e => e.toList.map expr
  | .traitUse _ => []

/-- The pieces right below a statement. -/
def childrenOfStmt : Stmt → List Node
  | .namespaceLine _ => []
  | .namespaceBlock _ body => body.map stmt
  | .imports _ _ => []
  | .classLike decl => [classDecl true decl]
  | .function _ params returns body =>
    params.map param ++ (returns.toList.map typeHint ++ body.map stmt)
  | .constants items => items.map constItem
  | .expr e => [expr e]
  | .returned e => e.toList.map expr
  | .echo es => es.map expr
  | .branch cond thenBody elseBody => expr cond :: (thenBody.map stmt ++ elseBody.map stmt)
  | .loop header body => header.map expr ++ body.map stmt
  | .forEach subject key element body =>
    expr subject :: (key.toList.map expr ++ expr element :: body.map stmt)
  | .attempt body catches cleanup =>
    body.map stmt ++ (catches.map catchClause ++ cleanup.map stmt)
  | .block body => body.map stmt
  | .varDoc _ _ => []
  | .globals _ => []

/-- The pieces right below a node. -/
def children : Node → List Node
  | expr e => childrenOfExpr e
  | operand _ (.dynamic e) => [expr e]
  | operand _ _ => []
  | memberName (.dynamic e) => [expr e]
  | memberName (.ident _) => []
  | callee (.value e) => [expr e]
  | callee (.named _) => []
  | typeHint _ => []
  | param (.mk _ hint _ default _ _) => hint.toList.map typeHint ++ default.toList.map expr
  | classDecl _ (.mk _ _ _ _ members) => members.map member
  | member m => childrenOfMember m
  | stmt s => childrenOfStmt s
  | constItem (.mk _ e) => [expr e]
  | catchClause (.mk _ _ body) => body.map stmt

/-! ## Everything below a node -/

/-- The size of what a node holds. -/
noncomputable def weight : Node → Nat
  | expr e => sizeOf e
  | operand _ target => sizeOf target
  | memberName name => sizeOf name
  | callee target => sizeOf target
  | typeHint hint => sizeOf hint
  | param p => sizeOf p
  | classDecl _ decl => sizeOf decl
  | member m => sizeOf m
  | stmt s => sizeOf s
  | constItem item => sizeOf item
  | catchClause clause => sizeOf clause

theorem weight_lt_of_mem_map {α : Type} [SizeOf α] {f : α → Node}
    (hf : ∀ a, (f a).weight = sizeOf a) {l : List α} {m : Node} (h : m ∈ l.map f) :
    m.weight < sizeOf l := by
  obtain ⟨a, ha, rfl⟩ := List.mem_map.1 h
  rw [hf]
  exact List.sizeOf_lt_of_mem ha

theorem weight_lt_of_mem_map_toList {α : Type} [SizeOf α] {f : α → Node}
    (hf : ∀ a, (f a).weight = sizeOf a) {o : Option α} {m : Node} (h : m ∈ o.toList.map f) :
    m.weight < sizeOf o := by
  cases o with
  | none => exact absurd h List.not_mem_nil
  | some a =>
      rw [List.mem_singleton.1 h, hf]
      simp

theorem weight_lt_of_mem_children {n m : Node} (h : m ∈ n.children) : m.weight < n.weight := by
  have hexprs : ∀ {es : List Expr}, m ∈ es.map expr → m.weight < sizeOf es :=
    weight_lt_of_mem_map fun _ => rfl
  have hstmts : ∀ {ss : List Stmt}, m ∈ ss.map stmt → m.weight < sizeOf ss :=
    weight_lt_of_mem_map fun _ => rfl
  have hparams : ∀ {ps : List Param}, m ∈ ps.map param → m.weight < sizeOf ps :=
    weight_lt_of_mem_map fun _ => rfl
  have hmembers : ∀ {ms : List Member}, m ∈ ms.map member → m.weight < sizeOf ms :=
    weight_lt_of_mem_map fun _ => rfl
  have hitems : ∀ {items : List ConstItem}, m ∈ items.map constItem → m.weight < sizeOf items :=
    weight_lt_of_mem_map fun _ => rfl
  have hcatches : ∀ {cs : List Catch}, m ∈ cs.map catchClause → m.weight < sizeOf cs :=
    weight_lt_of_mem_map fun _ => rfl
  have hexpr? : ∀ {e : Option Expr}, m ∈ e.toList.map expr → m.weight < sizeOf e :=
    weight_lt_of_mem_map_toList fun _ => rfl
  have hhint? : ∀ {hint : Option TypeHint}, m ∈ hint.toList.map typeHint → m.weight < sizeOf hint :=
    weight_lt_of_mem_map_toList fun _ => rfl
  -- In each case the sizes of the parts add up to less than the size of the whole.
  cases n with
  | expr e => cases e <;> simp [children, childrenOfExpr, -List.mem_map] at h <;> grind [weight]
  | stmt s => cases s <;> simp [children, childrenOfStmt, -List.mem_map] at h <;> grind [weight]
  | member x => cases x <;> simp [children, childrenOfMember, -List.mem_map] at h <;> grind [weight]
  | operand position target => cases target <;> simp [children] at h; grind [weight]
  | memberName name => cases name <;> simp [children] at h; grind [weight]
  | callee target => cases target <;> simp [children] at h; grind [weight]
  | typeHint hint => exact absurd h List.not_mem_nil
  | param p => cases p; simp [children, -List.mem_map] at h; grind [weight]
  | classDecl isStatement decl => cases decl; simp [children, -List.mem_map] at h; grind [weight]
  | constItem item => cases item; simp [children] at h; grind [weight]
  | catchClause clause => cases clause; simp [children, -List.mem_map] at h; grind [weight]

/-- Induction from the children of a node to the node. -/
theorem induction {P : Node → Prop} (h : ∀ n : Node, (∀ m ∈ n.children, P m) → P n) (n : Node) :
    P n :=
  h n fun m _ => induction h m
termination_by n.weight
decreasing_by exact weight_lt_of_mem_children ‹_›

/-- A node and all nodes below it. -/
def nodes (n : Node) : List Node :=
  n :: n.children.attach.flatMap fun m => m.1.nodes
termination_by n.weight
decreasing_by exact weight_lt_of_mem_children m.2

/-- All nodes below a node. -/
def below (n : Node) : List Node :=
  n.children.flatMap nodes

theorem nodes_eq (n : Node) : n.nodes = n :: n.below := by
  rw [nodes, below, List.flatMap_subtype fun _ _ => rfl, List.unattach_attach]

theorem mem_nodes_self (n : Node) : n ∈ n.nodes := by
  rw [nodes_eq]
  exact List.mem_cons_self

/-- What is below a child is below the node. -/
theorem nodes_subset_below {n m : Node} (h : m ∈ n.children) : m.nodes ⊆ n.below := by
  intro k hk
  exact List.mem_flatMap.2 ⟨m, h, hk⟩

theorem below_subset_nodes (n : Node) : n.below ⊆ n.nodes := by
  rw [nodes_eq]
  exact List.subset_cons_self n n.below

end Node

/-- All nodes of a file. -/
def nodesOf (ss : List Stmt) : List Node :=
  (ss.map Node.stmt).flatMap Node.nodes

end Tree
end CrossReference
