import CrossReference.Proofs.Tree.Nodes
import CrossReference.Proofs.Usage.Invariant

/-!
# The stages of a walk

The walk over a node is a list of stages: something is met, one thing changes, a piece below the
node is walked, or the body of a function is. `Tracker.stages_ofNode` says that a walk is made of
its stages, so what is said of the stages is said of the walk.
-/

namespace CrossReference

open CrossReference.Tree

namespace Tracker

/-! ## Stages -/

/-- A single change of what is in force. -/
inductive Change where
  | enterNamespace (name : Option Word)
  | addImport (kind : NameKind) (item : ImportItem)
  /-- The body of a type begins; without a name it is anonymous. -/
  | enterType (name : Option Word)
  | leaveType
  | forget (var : String)
  | assign (var : String) (assigned : Expr)
  | bindCaught (var : String) (types : List Word)
  | document (var : String) (hint : TypeHint)

/-- What is in force after a change. -/
def Change.apply (r : Resolver) (p : Place) : Change → Place
  | enterNamespace name =>
    { p with context := p.context.enterNamespace (name.map Word.text) }
  | addImport kind item =>
    { p with context := p.context.addImport kind item.localName item.name.text }
  | enterType name => { p with context := p.context.pushType (bodyName p.context name) }
  | leaveType => { p with context := p.context.popType }
  | forget var => { p with locals := p.locals.forget var }
  | assign var assigned => { p with locals := p.locals.assign var (r.value p assigned) }
  | bindCaught var types =>
    { p with locals := p.locals.bind var (types.head?.bind (r.namedType? p.context)) }
  | document var hint =>
    match r.hintType? p.context hint with
    | some type => { p with locals := p.locals.document var type }
    | none => p

/-- A stage of a walk. -/
inductive Stage where
  | meet (reference : Reference)
  | change (c : Change)
  /-- A piece of the tree, which is read or written. -/
  | piece (mode : Mode) (n : Node)
  /-- The body of a function with its parameters and what it captures. -/
  | functionBody (ps : List Param) (captured : List String) (body : List Node)

namespace Stage

/-- A piece that is read. -/
def read (n : Node) : Stage :=
  .piece .read n

/-- Expressions, one after the other. -/
def exprs (mode : Mode) (es : List Expr) : List Stage :=
  es.map fun e => .piece mode (.expr e)

/-- Statements, one after the other. -/
def stmts (ss : List Stmt) : List Stage :=
  ss.map fun s => .read (.stmt s)

/-- Class names that are met in the same way. -/
def typeNames (role : UsageKind) (names : List Word) : List Stage :=
  names.map fun name => .meet (.typeName name role)

/-- A type that may be missing. -/
def typeHint? (hint : Option TypeHint) : List Stage :=
  hint.toList.map fun hint => .read (.typeHint hint)

/-- A function of any kind. -/
def function (ps : List Param) (captured : List String) (returns : Option TypeHint)
    (body : List Node) : List Stage :=
  ps.map (fun p => .read (.param p)) ++ (typeHint? returns ++ [.functionBody ps captured body])

/-- The stages of the walk over an expression. -/
def ofExpr (mode : Mode) : Expr → List Stage
  | .var name _ =>
    match mode with
    | .read => []
    | .write => [.change (.forget name)]
  | .text _ _ => []
  | .literal _ => []
  | .constant name => [.meet (.constant name)]
  | .new target args _ =>
    .read (.operand .instantiated target) :: .meet (.operand target .instantiation) ::
      .meet (.construction target) :: exprs .read args
  | .newAnonymous decl args _ => exprs .read args ++ [.read (.classDecl false decl)]
  | .call (.named name) args _ => .meet (.call name args) :: exprs .read args
  | .call (.value callee) args _ =>
    .read (.callee (.value callee)) :: .meet (.callValue callee) :: exprs .read args
  | .methodCall receiver method args nullsafe _ =>
    .read (.expr receiver) :: .read (.memberName method) ::
      .meet (.member (.object receiver) method .instanceMethod nullsafe) :: exprs .read args
  | .property receiver name nullsafe _ =>
    [.read (.expr receiver), .read (.memberName name),
      .meet (.member (.object receiver) name .instanceProperty nullsafe)]
  | .staticCall target method args _ =>
    .read (.operand .accessed target) :: .meet (.operand target .staticMemberAccess) ::
      .read (.memberName method) :: .meet (.member (.type target) method .staticMethod false) ::
        exprs .read args
  | .staticProperty target name _ =>
    [.read (.operand .accessed target), .meet (.operand target .staticMemberAccess),
      .read (.memberName name), .meet (.member (.type target) name .staticProperty false)]
  | .classConstant target name _ =>
    .read (.operand .constantOwner target) :: .meet (.operand target .constantAccess) ::
      if Text.sameFolded name.text "class" then []
      else [.meet (.member (.type target) (.ident name) .constant false)]
  | .instanceOf subject target _ =>
    [.read (.expr subject), .read (.operand .tested target), .meet (.operand target .typePosition)]
  | .assign target assigned _ =>
    .read (.expr assigned) ::
      match target.variable? with
      | some name => if name = "this" then [] else [.change (.assign name assigned)]
      | none => [.piece .write (.expr target)]
  | .array items _ => exprs mode items
  | .closure ps captured returns body _ => function ps captured returns (body.map .stmt)
  | .arrow ps returns body _ => function ps [] returns [.expr body]
  | .compound children _ => exprs .read children

/-- The stages of the walk over a member. -/
def ofMember : Member → List Stage
  | .method _ _ _ ps returns body => function ps [] returns (body.map .stmt)
  | .property _ _ _ hint _ default => typeHint? hint ++ exprs .read default.toList
  | .constant _ _ e => [.read (.expr e)]
  | .enumCase _ e => exprs .read e.toList
  | .traitUse traits => typeNames .inheritanceClause traits

/-- The stages of the walk over a statement. -/
def ofStmt : Stmt → List Stage
  | .namespaceLine name => [.change (.enterNamespace name)]
  | .namespaceBlock name body =>
    .change (.enterNamespace name) :: (stmts body ++ [.change (.enterNamespace none)])
  | .imports kind items =>
    items.flatMap fun item => [.change (.addImport kind item), .meet (.imported kind item.name)]
  | .classLike decl => [.read (.classDecl true decl)]
  | .function _ ps returns body => function ps [] returns (body.map .stmt)
  | .constants items => items.map fun item => .read (.constItem item)
  | .expr e => [.read (.expr e)]
  | .returned e => exprs .read e.toList
  | .echo es => exprs .read es
  | .branch cond thenBody elseBody => .read (.expr cond) :: (stmts thenBody ++ stmts elseBody)
  | .loop header body => exprs .read header ++ stmts body
  | .forEach subject key element body =>
    .read (.expr subject) ::
      (exprs .write key.toList ++ .piece .write (.expr element) :: stmts body)
  | .attempt body catches cleanup =>
    stmts body ++ (catches.map (fun c => .read (.catchClause c)) ++ stmts cleanup)
  | .block body => stmts body
  | .varDoc var hint => [.change (.document var hint)]
  | .globals vars => vars.map fun var => .change (.forget var)

/-- The stages of the walk over a node. -/
def ofNode (mode : Mode) : Node → List Stage
  | .expr e => ofExpr mode e
  | .operand _ (.dynamic e) => [.read (.expr e)]
  | .operand _ _ => []
  | .memberName (.dynamic e) => [.read (.expr e)]
  | .memberName (.ident _) => []
  | .callee (.value e) => [.read (.expr e)]
  | .callee (.named _) => []
  | .typeHint hint => typeNames .typePosition hint.names
  | .param (.mk _ hint _ default _ _) => typeHint? hint ++ exprs .read default.toList
  | .classDecl _ (.mk _ name parents interfaces ms) =>
    typeNames .inheritanceClause parents ++ (typeNames .inheritanceClause interfaces ++
      .change (.enterType name) :: .meet .typeBody ::
        (ms.map (fun m => .read (.member m)) ++ [.change .leaveType]))
  | .member m => ofMember m
  | .stmt s => ofStmt s
  | .constItem (.mk _ e) => [.read (.expr e)]
  | .catchClause (.mk types var body) =>
    typeNames .typePosition types ++
      (var.toList.map (fun var => .change (.bindCaught var types)) ++ stmts body)

end Stage

/-- The walk over a node. -/
def node (r : Resolver) (mode : Mode) : Node → Tracker
  | .expr e => expr r mode e
  | .operand _ target => operand r target
  | .memberName name => memberName r name
  | .callee (.named _) => .skip
  | .callee (.value e) => expr r .read e
  | .typeHint hint => typeHint hint
  | .param p => params r [p]
  | .classDecl _ decl => classDecl r decl
  | .member m => member r m
  | .stmt s => stmt r s
  | .constItem item => constItems r [item]
  | .catchClause clause => catchClauses r [clause]

/-- The walk that is a stage. -/
def stage (r : Resolver) : Stage → Tracker
  | .meet reference => refer reference
  | .change c => .change fun p => c.apply r p
  | .piece mode n => node r mode n
  | .functionBody ps captured body => functionBody r ps captured (.each (node r .read) body)

/-- Several stages, one after the other. -/
def stages (r : Resolver) (l : List Stage) : Tracker :=
  .each (stage r) l

/-! ## A walk is made of its stages -/

section Assembly

variable (r : Resolver)

theorem stages_nil : stages r [] = .skip :=
  rfl

theorem stages_cons (x : Stage) (l : List Stage) :
    stages r (x :: l) = (stage r x).andThen (stages r l) :=
  rfl

theorem stages_append (l l' : List Stage) :
    stages r (l ++ l') = (stages r l).andThen (stages r l') := by
  induction l with
  | nil => rfl
  | cons x l ih => rw [List.cons_append, stages_cons, ih, stages_cons, Walk.andThen_assoc]

/-- Stages that go over a list are a walk that goes over the list. -/
theorem stages_map {α : Type} (h : α → Stage) {f : List α → Tracker} (hnil : f [] = .skip)
    (hcons : ∀ x l, f (x :: l) = (stage r (h x)).andThen (f l)) (l : List α) :
    stages r (l.map h) = f l := by
  induction l with
  | nil => exact hnil.symm
  | cons x l ih => rw [List.map_cons, stages_cons, ih, hcons]

theorem stages_exprs (mode : Mode) (es : List Expr) :
    stages r (Stage.exprs mode es) = exprs r mode es :=
  stages_map r _ rfl (fun _ _ => rfl) es

theorem stages_expr? (mode : Mode) (e : Option Expr) :
    stages r (Stage.exprs mode e.toList) = expr? r mode e := by
  cases e with
  | none => rfl
  | some e => exact Walk.andThen_skip _

theorem stages_stmts (ss : List Stmt) : stages r (Stage.stmts ss) = stmts r ss :=
  stages_map r _ rfl (fun _ _ => rfl) ss

theorem stages_members (ms : List Member) :
    stages r (ms.map fun m => .read (.member m)) = members r ms :=
  stages_map r _ rfl (fun _ _ => rfl) ms

theorem stages_params (ps : List Param) :
    stages r (ps.map fun p => .read (.param p)) = params r ps := by
  refine stages_map r _ rfl ?_ ps
  rintro ⟨⟩ ps
  simp only [stage, Stage.read, node, params, Walk.inOrder, Walk.andThen_assoc, Walk.andThen_skip]

theorem stages_constItems (items : List ConstItem) :
    stages r (items.map fun item => .read (.constItem item)) = constItems r items := by
  refine stages_map r _ rfl ?_ items
  rintro ⟨⟩ items
  simp only [stage, Stage.read, node, constItems, Walk.andThen_skip]

theorem stages_catchClauses (catches : List Catch) :
    stages r (catches.map fun c => .read (.catchClause c)) = catchClauses r catches := by
  refine stages_map r _ rfl ?_ catches
  rintro ⟨⟩ catches
  simp only [stage, Stage.read, node, catchClauses, Walk.inOrder, Walk.andThen_assoc,
    Walk.andThen_skip]

theorem stages_typeNames (role : UsageKind) (names : List Word) :
    stages r (Stage.typeNames role names) =
      .each (fun name => refer (.typeName name role)) names :=
  stages_map r _ rfl (fun _ _ => rfl) names

theorem stages_typeHint? (hint : Option TypeHint) :
    stages r (Stage.typeHint? hint) = typeHint? hint := by
  cases hint with
  | none => rfl
  | some hint => exact Walk.andThen_skip _

theorem stages_forget (vars : List String) :
    stages r (vars.map fun var => .change (.forget var)) =
      changeLocals fun l => vars.foldl Locals.forget l := by
  induction vars with
  | nil => rfl
  | cons var vars ih =>
      rw [List.map_cons, stages_cons, ih]
      rfl

theorem stages_imports (kind : NameKind) (items : List ImportItem) :
    stages r (items.flatMap fun item =>
      [.change (.addImport kind item), .meet (.imported kind item.name)]) =
        importAll kind items := by
  induction items with
  | nil => rfl
  | cons item items ih =>
      rw [List.flatMap_cons, stages_append, ih]
      rfl

theorem stages_bindCaught (types : List Word) (var : Option String) :
    stages r (var.toList.map fun var => .change (.bindCaught var types)) =
      bindCaught r types var := by
  cases var <;> rfl

theorem stages_read (ns : List Node) : stages r (ns.map .read) = .each (node r .read) ns :=
  stages_map r _ rfl (fun _ _ => rfl) ns

theorem stages_function (ps : List Param) (captured : List String) (returns : Option TypeHint)
    (body : List Node) :
    stages r (Stage.function ps captured returns body) =
      .inOrder [params r ps, typeHint? returns,
        functionBody r ps captured (stages r (body.map .read))] := by
  rw [Stage.function, stages_append, stages_append, stages_params, stages_typeHint?, stages_read]
  rfl

theorem stages_body (ss : List Stmt) : stages r ((ss.map .stmt).map .read) = stmts r ss := by
  rw [List.map_map]
  exact stages_stmts r ss

theorem stages_ofExpr (mode : Mode) (e : Expr) :
    stages r (Stage.ofExpr mode e) = expr r mode e := by
  cases e with
  | var name span => cases mode <;> rfl
  | call callee args span =>
      cases callee <;> simp only [Stage.ofExpr, stages_cons, stages_exprs, stage, Stage.read, node,
        expr, Walk.inOrder, Walk.andThen_skip]
  | classConstant target name span =>
      simp only [Stage.ofExpr, stages_cons, stage, Stage.read, node, expr, Walk.inOrder,
        Walk.andThen_skip]
      split <;> rfl
  | assign target assigned span =>
      simp only [Stage.ofExpr, stages_cons, stage, Stage.read, node, expr, Walk.inOrder,
        Walk.andThen_skip]
      cases target.variable? with
      | none => simp only [stages_cons, stages_nil, stage, node, Walk.andThen_skip]
      | some name =>
          simp only [assign]
          split <;> rfl
  | closure ps captured returns body span => rw [Stage.ofExpr, stages_function, stages_body, expr]
  | arrow ps returns body span =>
      rw [Stage.ofExpr, stages_function, List.map_singleton, stages_cons, stages_nil,
        Walk.andThen_skip, expr]
      rfl
  | _ => simp only [Stage.ofExpr, stages_cons, stages_append, stages_nil, stages_exprs, stage,
      Stage.read, node, expr, Walk.inOrder, Walk.andThen_skip]

theorem stages_ofMember (m : Member) : stages r (Stage.ofMember m) = member r m := by
  cases m with
  | method name visibility isStatic ps returns body =>
      rw [Stage.ofMember, stages_function, stages_body, member]
  | property name visibility isStatic hint doc default =>
      rw [Stage.ofMember, stages_append, stages_typeHint?, stages_expr?, member, Walk.inOrder,
        Walk.inOrder, Walk.inOrder, Walk.andThen_skip]
  | constant name visibility e => exact Walk.andThen_skip _
  | enumCase name e => exact stages_expr? r .read e
  | traitUse traits => exact stages_typeNames r .inheritanceClause traits

theorem stages_ofStmt (s : Stmt) : stages r (Stage.ofStmt s) = stmt r s := by
  cases s with
  | imports kind items => exact stages_imports r kind items
  | function name ps returns body => rw [Stage.ofStmt, stages_function, stages_body, stmt]
  | constants items => exact stages_constItems r items
  | returned e => exact stages_expr? r .read e
  | globals vars => exact stages_forget r vars
  | forEach subject key element body =>
      simp only [Stage.ofStmt, stages_cons, stages_append, stages_expr?, stages_stmts, stage,
        Stage.read, node, stmt, Walk.inOrder, Walk.andThen_skip]
  | attempt body catches cleanup =>
      simp only [Stage.ofStmt, stages_append, stages_catchClauses, stages_stmts, stmt, Walk.inOrder,
        Walk.andThen_skip]
  | namespaceLine name => rfl
  | namespaceBlock name body =>
      rw [Stage.ofStmt, stages_cons, stages_append, stages_stmts, stmt]
      rfl
  | varDoc var hint => rfl
  | _ =>
      simp only [Stage.ofStmt, stages_cons, stages_append, stages_nil, stages_exprs, stages_stmts,
        stage, Stage.read, node, stmt, Walk.inOrder, Walk.andThen_skip]

/-- The walk over a node is made of its stages. -/
theorem stages_ofNode (mode : Mode) (n : Node) :
    stages r (Stage.ofNode mode n) = node r mode n := by
  cases n with
  | expr e => exact stages_ofExpr r mode e
  | member m => exact stages_ofMember r m
  | stmt s => exact stages_ofStmt r s
  | operand position target =>
      cases target with
      | dynamic e => exact Walk.andThen_skip _
      | _ => rfl
  | memberName name =>
      cases name with
      | dynamic e => exact Walk.andThen_skip _
      | _ => rfl
  | callee target =>
      cases target with
      | value e => exact Walk.andThen_skip _
      | _ => rfl
  | typeHint hint => exact stages_typeNames r .typePosition hint.names
  | param p =>
      cases p
      simp only [Stage.ofNode, stages_append, stages_typeHint?, stages_expr?, node, params,
        Walk.inOrder, Walk.andThen_skip]
  | classDecl isStatement decl =>
      obtain ⟨kind, name, parents, interfaces, ms⟩ := decl
      simp only [Stage.ofNode, stages_append, stages_cons, stages_nil, stages_typeNames,
        stages_members, stage, node, classDecl, clause, typeBody, Walk.inOrder, Walk.andThen_skip]
      cases name <;> rfl
  | constItem item =>
      cases item
      rfl
  | catchClause clause =>
      cases clause
      simp only [Stage.ofNode, stages_append, stages_typeNames, stages_bindCaught, stages_stmts,
        node, catchClauses, Walk.inOrder, Walk.andThen_skip]

end Assembly

end Tracker
end CrossReference
