import CrossReference.Proofs.Usage.Stages

/-!
# The states of a walk

A walk over a file is known by what it meets and by the state in which it ends. The stages of the
walk let one speak of every state on the way too.

* `Tracker.Passes` relates a list of stages and the state before them to each state on the way,
  and `Tracker.Reached` says so of a file.
* `Tracker.reached_of_mem_eventsOf` finds the places of all events among the states of a file.
* `Tracker.Invariant.of_reached` says that an invariant of single changes holds in all of them.
-/

namespace CrossReference

open CrossReference.Tree

namespace Tracker

/-! ## The states on the way -/

/-- What is in force at the start of a function, before what it captures is forgotten. -/
def enterFunction (r : Resolver) (ps : List Param) (p : Place) : Place :=
  { p with locals := ps.foldl (bindParam r p.context) p.locals.nested }

/-- The stages inside a function: what it captures is forgotten, and then its body is walked. -/
def Stage.inside (captured : List String) (body : List Node) : List Stage :=
  captured.map (fun var => .change (.forget var)) ++ body.map .read

/-- `q` is a state on the way through the stages from `p`: where a stage begins or ends, or a state
on the way through what is inside a stage. -/
inductive Passes (r : Resolver) : List Stage → Place → Place → Prop
  | here {l : List Stage} {p : Place} : Passes r l p p
  | next {x : Stage} {l : List Stage} {p q : Place} :
    Passes r l ((stage r x).run p).2 q → Passes r (x :: l) p q
  | piece {mode : Mode} {n : Node} {l : List Stage} {p q : Place} :
    Passes r (Stage.ofNode mode n) p q → Passes r (.piece mode n :: l) p q
  | body {ps : List Param} {captured : List String} {body : List Node} {l : List Stage}
      {p q : Place} :
    Passes r (Stage.inside captured body) (enterFunction r ps p) q →
      Passes r (.functionBody ps captured body :: l) p q

/-- `p` is a state of the walk over a file. -/
def Reached (r : Resolver) (hopLimit : Nat) (ss : List Stmt) (p : Place) : Prop :=
  Passes r (Stage.stmts ss) { locals := .start hopLimit } p

section Passes

variable {r : Resolver}

theorem passes_end (l : List Stage) (p : Place) : Passes r l p ((stages r l).run p).2 := by
  induction l generalizing p with
  | nil => exact .here
  | cons x l ih => exact .next (ih _)

theorem reached_end (hopLimit : Nat) (ss : List Stmt) :
    Reached r hopLimit ss ((stmts r ss).run { locals := .start hopLimit }).2 := by
  rw [← stages_stmts]
  exact passes_end _ _

/-- What is met in a stage is met in a state on the way through it. -/
def Stage.Locates (r : Resolver) (x : Stage) : Prop :=
  ∀ p, ∀ e ∈ ((stage r x).run p).1, ∀ l, Passes r (x :: l) p e.place

theorem passes_of_mem_stages {l : List Stage} (h : ∀ x ∈ l, x.Locates r) {p : Place} {e : Event}
    (he : e ∈ ((stages r l).run p).1) : Passes r l p e.place := by
  induction l generalizing p with
  | nil => exact absurd he List.not_mem_nil
  | cons x l ih =>
      rw [List.forall_mem_cons] at h
      rw [stages_cons, Walk.andThen_run, List.mem_append] at he
      rcases he with he | he
      · exact h.1 p e he l
      · exact .next (ih h.2 he)

theorem locates_meet (reference : Reference) : (Stage.meet reference).Locates r := by
  intro p e he l
  obtain rfl := List.mem_singleton.1 he
  exact .here

theorem locates_change (c : Change) : (Stage.change c).Locates r := by
  intro p e he
  exact absurd he List.not_mem_nil

theorem run_functionBody (ps : List Param) (captured : List String) (body : List Node)
    (p : Place) : ((stage r (.functionBody ps captured body)).run p).1 =
      ((stages r (Stage.inside captured body)).run (enterFunction r ps p)).1 := by
  rw [Stage.inside, stages_append, stages_forget, stages_read]
  rfl

namespace Stage

/-- The pieces of the tree that are walked in a stage. -/
def nodes : Stage → List Node
  | .piece _ n => [n]
  | .functionBody _ _ body => body
  | _ => []

/-- The pieces of the tree that are walked in some stages. -/
def nodesOf (l : List Stage) : List Node :=
  l.flatMap nodes

@[simp] theorem nodesOf_nil : nodesOf [] = [] := rfl

@[simp] theorem nodesOf_cons (x : Stage) (l : List Stage) :
    nodesOf (x :: l) = x.nodes ++ nodesOf l := rfl

@[simp] theorem nodesOf_append (l l' : List Stage) : nodesOf (l ++ l') = nodesOf l ++ nodesOf l' :=
  List.flatMap_append

@[simp] theorem nodesOf_map {α : Type} (h : α → Stage) (l : List α) :
    nodesOf (l.map h) = l.flatMap fun x => (h x).nodes :=
  List.flatMap_map ..

@[simp] theorem nodes_meet (reference : Reference) : (meet reference).nodes = [] := rfl

@[simp] theorem nodes_change (c : Change) : (change c).nodes = [] := rfl

@[simp] theorem nodes_piece (mode : Mode) (n : Node) : (piece mode n).nodes = [n] := rfl

@[simp] theorem nodes_read (n : Node) : (read n).nodes = [n] := rfl

@[simp] theorem nodes_functionBody (ps : List Param) (captured : List String) (body : List Node) :
    (functionBody ps captured body).nodes = body := rfl

@[simp] theorem nodesOf_typeNames (role : UsageKind) (names : List Word) :
    nodesOf (typeNames role names) = [] := by
  simp [typeNames]

@[simp] theorem nodesOf_typeHint? (hint : Option TypeHint) :
    nodesOf (typeHint? hint) = hint.toList.map .typeHint := by
  cases hint <;> rfl

end Stage

theorem locates_of_nodes {x : Stage}
    (h : ∀ n ∈ x.nodes, ∀ mode, (Stage.piece mode n).Locates r) : x.Locates r := by
  cases x with
  | meet reference => exact locates_meet reference
  | change c => exact locates_change c
  | piece mode n => exact h n (List.mem_singleton_self n) mode
  | functionBody ps captured body =>
      intro p e he l
      rw [run_functionBody] at he
      refine .body (passes_of_mem_stages ?_ he)
      intro x hx
      rcases List.mem_append.1 hx with hx | hx
      · obtain ⟨var, _, rfl⟩ := List.mem_map.1 hx
        exact locates_change _
      · obtain ⟨n, hn, rfl⟩ := List.mem_map.1 hx
        exact h n hn .read

theorem nodesOf_ofExpr_subset (mode : Mode) (e : Expr) :
    Stage.nodesOf (Stage.ofExpr mode e) ⊆ Node.childrenOfExpr e := by
  cases e with
  | var name span => cases mode <;> simp [Stage.ofExpr]
  | call callee args span =>
      cases callee <;>
        simp [Stage.ofExpr, Stage.exprs, Node.childrenOfExpr, ← List.map_eq_flatMap]
  | classConstant target name span =>
      simp only [Stage.ofExpr]
      split <;> simp [Node.childrenOfExpr]
  | assign target assigned span =>
      simp only [Stage.ofExpr]
      split
      · split <;> simp [Node.childrenOfExpr]
      · simp [Node.childrenOfExpr]
  | _ =>
      simp [Stage.ofExpr, Stage.exprs, Stage.function, Node.childrenOfExpr, ← List.map_eq_flatMap]

/-- The pieces that are walked in the stages of a node are right below it. -/
theorem nodesOf_ofNode_subset (mode : Mode) (n : Node) :
    Stage.nodesOf (Stage.ofNode mode n) ⊆ n.children := by
  cases n with
  | expr e => exact nodesOf_ofExpr_subset mode e
  | member m =>
      cases m <;> simp [Stage.ofNode, Stage.ofMember, Stage.exprs, Stage.function, Node.children,
        Node.childrenOfMember, ← List.map_eq_flatMap]
  | stmt s =>
      cases s with
      | imports kind items =>
          simp [Stage.ofNode, Stage.ofStmt, Stage.nodesOf, List.flatMap_assoc, Node.children,
            Node.childrenOfStmt]
      | _ =>
          simp [Stage.ofNode, Stage.ofStmt, Stage.exprs, Stage.stmts, Stage.function, Node.children,
            Node.childrenOfStmt, ← List.map_eq_flatMap]
  | operand position target => cases target <;> simp [Stage.ofNode, Node.children]
  | memberName name => cases name <;> simp [Stage.ofNode, Node.children]
  | callee target => cases target <;> simp [Stage.ofNode, Node.children]
  | typeHint hint => simp [Stage.ofNode]
  | param p => cases p; simp [Stage.ofNode, Stage.exprs, Node.children, ← List.map_eq_flatMap]
  | classDecl isStatement decl =>
      cases decl; simp [Stage.ofNode, Node.children, ← List.map_eq_flatMap]
  | constItem item => cases item; simp [Stage.ofNode, Node.children]
  | catchClause clause =>
      obtain ⟨types, var, body⟩ := clause
      cases var <;> simp [Stage.ofNode, Stage.stmts, Node.children, ← List.map_eq_flatMap]

theorem locates_piece (mode : Mode) (n : Node) : (Stage.piece mode n).Locates r := by
  induction n using Node.induction generalizing mode with
  | h n ih =>
      intro p e he l
      rw [stage, ← stages_ofNode] at he
      refine .piece (passes_of_mem_stages ?_ he)
      intro x hx
      refine locates_of_nodes fun m hm mode => ih m ?_ mode
      exact nodesOf_ofNode_subset _ n (List.mem_flatMap.2 ⟨x, hx, hm⟩)

/-- Every event of a file is met in a state of the walk. -/
theorem reached_of_mem_eventsOf {hopLimit : Nat} {ss : List Stmt} {e : Event}
    (he : e ∈ eventsOf r hopLimit ss) : Reached r hopLimit ss e.place := by
  unfold eventsOf at he
  rw [← stages_stmts] at he
  refine passes_of_mem_stages ?_ he
  intro x hx
  obtain ⟨s, _, rfl⟩ := List.mem_map.1 hx
  exact locates_piece .read _

end Passes

/-! ## Invariants -/

section Invariants

variable {r : Resolver} {I : Place → Prop}

theorem keeps_node (hI : Invariant r (fun _ => True) I) (mode : Mode) (n : Node) :
    (node r mode n).Keeps I (Event.Within (fun _ => True) I) := by
  cases n with
  | expr e => exact keeps_expr hI mode e fun _ _ => trivial
  | operand position target => exact keeps_operand hI target fun _ _ => trivial
  | memberName name => exact keeps_memberName hI name fun _ _ => trivial
  | callee target =>
      cases target with
      | named name => exact Walk.keeps_skip
      | value e => exact keeps_expr hI .read e fun _ _ => trivial
  | typeHint hint => exact keeps_typeNames fun _ _ => trivial
  | param p => exact keeps_params hI [p] fun _ _ => trivial
  | classDecl isStatement decl => exact keeps_classDecl hI decl fun _ _ => trivial
  | member m => exact keeps_member hI m fun _ _ => trivial
  | stmt s => exact keeps_stmt hI s fun _ _ => trivial
  | constItem item => exact keeps_constItems hI [item] fun _ _ => trivial
  | catchClause clause => exact keeps_catchClauses hI [clause] fun _ _ => trivial

theorem Invariant.apply (hI : Invariant r (fun _ => True) I) {p : Place} (hp : I p) (c : Change) :
    I (c.apply r p) := by
  cases c with
  | enterNamespace name => exact hI.enterNamespace p name hp fun _ _ => trivial
  | addImport kind item => exact hI.addImport p kind item hp trivial
  | enterType name => exact hI.enterType p name hp fun _ _ => trivial
  | leaveType => exact hI.leaveType p hp
  | forget var => exact hI.forget p var hp
  | assign var assigned => exact hI.assign p var assigned hp fun _ _ => trivial
  | bindCaught var types => exact hI.bindCaught p var types hp fun _ _ => trivial
  | document var hint =>
      simp only [Change.apply]
      split
      · rename_i type htype
        exact hI.document p var hint type hp (fun _ _ => trivial) htype
      · exact hp

theorem keeps_stage (hI : Invariant r (fun _ => True) I) (x : Stage) :
    (stage r x).Keeps I (Event.Within (fun _ => True) I) := by
  cases x with
  | meet reference => exact keeps_refer reference fun _ _ => trivial
  | change c => exact Walk.keeps_change fun _ hp => hI.apply hp c
  | piece mode n => exact keeps_node hI mode n
  | functionBody ps captured body =>
      exact keeps_functionBody hI (fun _ _ => trivial)
        (Walk.keeps_each fun n _ => keeps_node hI .read n)

theorem Invariant.of_passes (hI : Invariant r (fun _ => True) I) {l : List Stage} {p q : Place}
    (h : Passes r l p q) (hp : I p) : I q := by
  induction h with
  | here => exact hp
  | next _ ih => exact ih (keeps_stage hI _ _ hp).1
  | piece _ ih => exact ih hp
  | body _ ih => exact ih (hI.enterFunction _ _ hp fun _ _ => trivial)

/-- An invariant of single changes that holds at the start holds in every state of the walk. -/
theorem Invariant.of_reached (hI : Invariant r (fun _ => True) I) {hopLimit : Nat} {ss : List Stmt}
    (hstart : I { locals := .start hopLimit }) {p : Place} (hp : Reached r hopLimit ss p) : I p :=
  hI.of_passes hp hstart

end Invariants

end Tracker
end CrossReference
