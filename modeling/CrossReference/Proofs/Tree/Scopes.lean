import CrossReference.Proofs.Declaration.Collect
import CrossReference.Proofs.Tree.Nodes
import CrossReference.Proofs.Usage.Invariant

/-!
# What is in force at a node

Every node of a file with what names mean there and with the type declarations around it. A scope is
read off the nodes before a node and those around it: namespaces and imports last until they are
replaced, and the body of a type ends with its declaration. Nothing else changes a scope, so `visit`
is one walk over `Node.children` with what it does at a few kinds of nodes.

* `placedNodes ss` lists the nodes of a file with their scopes, each node once. Whatever else is
  listed of a file is read off this list.
* `Scope.Named` says that the types around a node are known by the names of their declarations.
* `mem_classBodies_of_mem_bodies` finds the declarations around a node among those of the file.
* `Walk.Visits` compares what a walk meets with how the nodes of the list are marked. The lemmas on
  it follow the ways in which walks are put together.
-/

namespace CrossReference

open CrossReference.Tree

/-- The declared name; without one the type is anonymous. -/
def Tree.ClassDecl.name? : ClassDecl → Option Word
  | .mk _ name _ _ _ => name

/-- The names of the extends clause. -/
def Tree.ClassDecl.parents : ClassDecl → List Word
  | .mk _ _ parents _ _ => parents

/-- The names of the implements clause. -/
def Tree.ClassDecl.interfaces : ClassDecl → List Word
  | .mk _ _ _ interfaces _ => interfaces

/-- A declaration of a type where it stands. -/
structure ClassBody where
  /-- What is in force before the declaration. -/
  context : Context
  /-- Whether the declaration is a statement, not part of the expression that makes an object. -/
  isStatement : Bool
  decl : ClassDecl

namespace ClassBody

/-- The name by which the type is known in its body. -/
def typeName (b : ClassBody) : String :=
  Tracker.bodyName b.context b.decl.name?

/-- Whether the declaration is a statement with a name. -/
def isDeclared (b : ClassBody) : Bool :=
  b.isStatement && b.decl.name?.isSome

end ClassBody

/-- What is in force at a node. -/
structure Scope where
  context : Context := ∅
  /-- The type declarations around the node, the innermost first. -/
  bodies : List ClassBody := []

/-- The types around are known by the names of their declarations. -/
def Scope.Named (s : Scope) : Prop :=
  s.context.enclosing = s.bodies.map ClassBody.typeName

/-- A node with what is in force there. -/
structure PlacedNode where
  scope : Scope
  node : Node

/-- The type declaration that a node is. -/
def PlacedNode.classBody? (x : PlacedNode) : Option ClassBody :=
  match x.node with
  | .classDecl isStatement decl => some ⟨x.scope.context, isStatement, decl⟩
  | _ => none

namespace Tree.Node

/-- What is in force at the start of what is below a node. -/
def enter (n : Node) (s : Scope) : Scope :=
  match n with
  | stmt (.namespaceLine name) =>
    { s with context := s.context.enterNamespace (name.map Word.text) }
  | stmt (.namespaceBlock name _) =>
    { s with context := s.context.enterNamespace (name.map Word.text) }
  | stmt (.imports kind items) =>
    let add := fun (ctx : Context) item => ctx.addImport kind item.localName item.name.text
    { s with context := items.foldl add s.context }
  | classDecl isStatement decl =>
    let body : ClassBody := ⟨s.context, isStatement, decl⟩
    { context := s.context.pushType body.typeName, bodies := body :: s.bodies }
  | _ => s

/-- What is in force after a node, from what is in force at the end of what is below it. -/
def leave (n : Node) (s : Scope) : Scope :=
  match n with
  | stmt (.namespaceBlock _ _) => { s with context := s.context.enterNamespace none }
  | classDecl _ _ => { context := s.context.popType, bodies := s.bodies.tail }
  | _ => s

/-- Whether another scope is in force below a node than before it. -/
def isScoped : Node → Bool
  | stmt (.namespaceLine _) => true
  | stmt (.namespaceBlock _ _) => true
  | stmt (.imports _ _) => true
  | classDecl _ _ => true
  | _ => false

theorem enter_of_not_isScoped {n : Node} (h : n.isScoped = false) (s : Scope) : n.enter s = s := by
  cases n with
  | classDecl isStatement decl => exact absurd h (by simp [isScoped])
  | stmt stmt => cases stmt <;> first | rfl | exact absurd h (by simp [isScoped])
  | _ => rfl

theorem leave_of_not_isScoped {n : Node} (h : n.isScoped = false) (s : Scope) : n.leave s = s := by
  cases n with
  | classDecl isStatement decl => exact absurd h (by simp [isScoped])
  | stmt stmt => cases stmt <;> first | rfl | exact absurd h (by simp [isScoped])
  | _ => rfl

/-- A node and all nodes below it, with their scopes. -/
def visit (n : Node) : Walk Scope PlacedNode :=
  .inOrder [.meet fun s => ⟨s, n⟩, .change n.enter,
    .inOrder (n.children.attach.map fun m => m.1.visit), .change n.leave]
termination_by n.weight
decreasing_by exact weight_lt_of_mem_children m.2

/-- Several nodes and all nodes below them, with their scopes. -/
def visitAll (ns : List Node) : Walk Scope PlacedNode :=
  .each visit ns

theorem visit_run (n : Node) (s : Scope) :
    n.visit.run s = (⟨s, n⟩ :: ((visitAll n.children).run (n.enter s)).1,
      n.leave ((visitAll n.children).run (n.enter s)).2) := by
  rw [visit, List.attach_map_val (f := visit)]
  simp [Walk.inOrder, Walk.andThen_run, visitAll, Walk.each]

theorem visitAll_nil : visitAll [] = .skip :=
  rfl

theorem visitAll_cons (n : Node) (ns : List Node) :
    visitAll (n :: ns) = n.visit.andThen (visitAll ns) :=
  rfl

theorem visitAll_append (ns ns' : List Node) :
    visitAll (ns ++ ns') = (visitAll ns).andThen (visitAll ns') := by
  induction ns with
  | nil => rfl
  | cons n ns ih => rw [List.cons_append, visitAll_cons, ih, ← Walk.andThen_assoc, visitAll_cons]

/-- What relates the nodes, the scope before them, all that is visited and the scope after holds of
every visit, if it goes from what is below a node to the node. -/
theorem visitAll_induction {P : List Node → Scope → List PlacedNode → Scope → Prop}
    (nil : ∀ s, P [] s [] s)
    (cons : ∀ {n ns s xs s' ys s''}, P [n] s xs s' → P ns s' ys s'' → P (n :: ns) s (xs ++ ys) s'')
    (node : ∀ {n s xs s'}, P n.children (n.enter s) xs s' → P [n] s (⟨s, n⟩ :: xs) (n.leave s'))
    (ns : List Node) (s : Scope) : P ns s ((visitAll ns).run s).1 ((visitAll ns).run s).2 := by
  have hlist : ∀ ns : List Node, (∀ n ∈ ns, ∀ s, P [n] s (n.visit.run s).1 (n.visit.run s).2) →
      ∀ s, P ns s ((visitAll ns).run s).1 ((visitAll ns).run s).2 := by
    intro ns h
    induction ns with
    | nil => exact nil
    | cons n ns ih =>
        rw [List.forall_mem_cons] at h
        intro s
        rw [visitAll_cons, Walk.andThen_run]
        exact cons (h.1 s) (ih h.2 _)
  have hnode : ∀ n : Node, ∀ s, P [n] s (n.visit.run s).1 (n.visit.run s).2 := by
    refine Node.induction fun n ih s => ?_
    rw [visit_run]
    exact node (hlist n.children ih (n.enter s))
  exact hlist ns (fun n _ => hnode n) s

/-- The nodes are those of the tree. -/
theorem map_node_visitAll (ns : List Node) (s : Scope) :
    ((visitAll ns).run s).1.map PlacedNode.node = ns.flatMap nodes := by
  refine visitAll_induction (P := fun ns _ xs _ => xs.map PlacedNode.node = ns.flatMap nodes)
    ?_ ?_ ?_ ns s
  · exact fun s => rfl
  · intro n ns s xs s' ys s'' hxs hys
    rw [List.map_append, hxs, hys, List.flatMap_singleton, List.flatMap_cons]
  · intro n s xs s' hxs
    rw [List.map_cons, hxs, List.flatMap_singleton, nodes_eq]
    rfl

/-! ## What names mean -/

/-- A namespace or an import. -/
def changesNames : Node → Bool
  | stmt (.namespaceLine _) => true
  | stmt (.namespaceBlock _ _) => true
  | stmt (.imports _ _) => true
  | _ => false

/-- Only namespaces and imports change what names mean after them. -/
theorem context_visitAll {ns : List Node} (h : ∀ k ∈ ns.flatMap nodes, k.changesNames = false)
    (t : Scope) : ((visitAll ns).run t).2.context = t.context := by
  have hvisit := visitAll_induction (P := fun _ s xs s' =>
    (∀ x ∈ xs, x.node.changesNames = false) → s'.context = s.context) ?_ ?_ ?_ ns t
  · refine hvisit fun x hx => h x.node ?_
    rw [← map_node_visitAll ns t]
    exact List.mem_map_of_mem hx
  · exact fun _ _ => rfl
  · intro n ns s xs s' ys s'' hxs hys hnone
    rw [List.forall_mem_append] at hnone
    exact (hys hnone.2).trans (hxs hnone.1)
  · intro n s xs s' hxs hnone
    rw [List.forall_mem_cons] at hnone
    have hinner := hxs hnone.2
    cases n with
    | stmt stmt =>
        cases stmt <;> first | exact hinner | exact absurd hnone.1 (by simp [changesNames])
    | classDecl isStatement decl => exact congrArg Context.popType hinner
    | _ => exact hinner

/-! ## The types around a node -/

theorem named_enter (n : Node) {s : Scope} (h : s.Named) : (n.enter s).Named := by
  unfold enter
  split
  · exact h
  · exact h
  · exact (Declarations.enclosing_foldl_addImport ..).trans h
  · exact congrArg (_ :: ·) h
  · exact h

theorem named_leave (n : Node) {s : Scope} (h : s.Named) : (n.leave s).Named := by
  unfold leave
  split
  · exact h
  · exact (congrArg List.tail h).trans (List.map_tail ..).symm
  · exact h

theorem named_visitAll (ns : List Node) (s : Scope) :
    s.Named → ((visitAll ns).run s).2.Named ∧ ∀ x ∈ ((visitAll ns).run s).1, x.scope.Named := by
  refine visitAll_induction (P := fun _ s xs s' => s.Named → s'.Named ∧ ∀ x ∈ xs, x.scope.Named)
    ?_ ?_ ?_ ns s
  · exact fun s h => ⟨h, by simp⟩
  · intro n ns s xs s' ys s'' hxs hys h
    obtain ⟨hmid, hxs⟩ := hxs h
    obtain ⟨hend, hys⟩ := hys hmid
    exact ⟨hend, List.forall_mem_append.2 ⟨hxs, hys⟩⟩
  · intro n s xs s' hxs h
    obtain ⟨hend, hxs⟩ := hxs (named_enter n h)
    exact ⟨named_leave n hend, List.forall_mem_cons.2 ⟨h, hxs⟩⟩

/-- The declarations that `enter` opens are closed by `leave`. -/
theorem bodies_leave {n : Node} {s s' : Scope} (h : s'.bodies = (n.enter s).bodies) :
    (n.leave s').bodies = s.bodies := by
  unfold leave
  unfold enter at h
  cases n with
  | classDecl isStatement decl => exact congrArg List.tail h
  | stmt stmt => cases stmt <;> exact h
  | _ => exact h

/-- The declaration that `enter` opens is the one that the node is. -/
theorem mem_of_mem_bodies_enter {n : Node} {s : Scope} {b : ClassBody}
    (h : b ∈ (n.enter s).bodies) (xs : List PlacedNode) :
    b ∈ s.bodies ∨ b ∈ (PlacedNode.mk s n :: xs).filterMap PlacedNode.classBody? := by
  unfold enter at h
  cases n with
  | classDecl isStatement decl =>
      rcases List.mem_cons.1 h with rfl | h
      · exact .inr List.mem_cons_self
      · exact .inl h
  | stmt stmt => cases stmt <;> exact .inl h
  | _ => exact .inl h

/-- The declarations around a node are those that were open at the start, and such as are visited
themselves. -/
theorem mem_of_mem_bodies (ns : List Node) (s : Scope) :
    ((visitAll ns).run s).2.bodies = s.bodies ∧
      ∀ x ∈ ((visitAll ns).run s).1, ∀ b ∈ x.scope.bodies,
        b ∈ s.bodies ∨ b ∈ ((visitAll ns).run s).1.filterMap PlacedNode.classBody? := by
  refine visitAll_induction (P := fun _ s xs s' => s'.bodies = s.bodies ∧
    ∀ x ∈ xs, ∀ b ∈ x.scope.bodies, b ∈ s.bodies ∨ b ∈ xs.filterMap PlacedNode.classBody?)
    ?_ ?_ ?_ ns s
  · exact fun s => ⟨rfl, by simp⟩
  · intro n ns s xs s' ys s'' hxs hys
    refine ⟨hys.1.trans hxs.1, ?_⟩
    rw [List.filterMap_append]
    intro x hx b hb
    rcases List.mem_append.1 hx with hx | hx
    · exact (hxs.2 x hx b hb).imp_right (List.mem_append_left _)
    · rw [← hxs.1]
      exact (hys.2 x hx b hb).imp_right (List.mem_append_right _)
  · intro n s xs s' hxs
    refine ⟨bodies_leave hxs.1, ?_⟩
    intro x hx b hb
    rcases List.mem_cons.1 hx with rfl | hx
    · exact .inl hb
    · rcases hxs.2 x hx b hb with hopen | hvisited
      · exact mem_of_mem_bodies_enter hopen xs
      · obtain ⟨y, hy, hbody⟩ := List.mem_filterMap.1 hvisited
        exact .inr (List.mem_filterMap.2 ⟨y, List.mem_cons_of_mem _ hy, hbody⟩)

end Tree.Node

/-- The nodes of a file with what is in force there, each before those below it. -/
def placedNodes (ss : List Stmt) : List PlacedNode :=
  ((Node.visitAll (ss.map .stmt)).run {}).1

/-- The type declarations of a file, where they stand. -/
def classBodies (ss : List Stmt) : List ClassBody :=
  (placedNodes ss).filterMap PlacedNode.classBody?

theorem map_node_placedNodes (ss : List Stmt) :
    (placedNodes ss).map PlacedNode.node = nodesOf ss :=
  Node.map_node_visitAll _ _

theorem currentType?_of_mem_placedNodes {ss : List Stmt} {x : PlacedNode}
    (hx : x ∈ placedNodes ss) :
    x.scope.context.currentType? = x.scope.bodies.head?.map ClassBody.typeName := by
  have hstart : Scope.Named {} := rfl
  have hnamed : x.scope.Named := (Node.named_visitAll _ _ hstart).2 x hx
  unfold Context.currentType?
  rw [hnamed, List.head?_map]

theorem mem_classBodies_of_mem_bodies {ss : List Stmt} {x : PlacedNode} (hx : x ∈ placedNodes ss)
    {b : ClassBody} (hb : b ∈ x.scope.bodies) : b ∈ classBodies ss := by
  rcases (Node.mem_of_mem_bodies _ _).2 x hx b hb with hstart | hvisited
  · exact absurd hstart List.not_mem_nil
  · exact hvisited

/-! ## Walks that go over the nodes -/

namespace Walk

/-- A way to compare two lists that can be done part by part. -/
class Compares {υ : Type} (R : List υ → List υ → Prop) : Prop where
  refl : ∀ xs, R xs xs
  append : ∀ {xs ys xs' ys'}, R xs ys → R xs' ys' → R (xs ++ xs') (ys ++ ys')

instance {υ : Type} : Compares (@Eq (List υ)) where
  refl := fun _ => rfl
  append := by
    rintro xs _ xs' _ rfl rfl
    rfl

instance {υ : Type} : Compares (List.Sublist (α := υ)) where
  refl := List.Sublist.refl
  append := List.Sublist.append

variable {σ ω υ : Type} {R : List υ → List υ → Prop} {view : σ → Context}
  {mark : PlacedNode → List υ} {see : ω → List υ} {w w' : Walk σ ω} {ws : List (Walk σ ω)}
  {n : Node} {ns ns' : List Node}

/-- `w` goes over the nodes: what it can see of the things that it meets compares with what the
nodes are marked with, in the same order, and `view` shows the context of the scopes. -/
def Visits (R : List υ → List υ → Prop) (view : σ → Context) (mark : PlacedNode → List υ)
    (see : ω → List υ) (w : Walk σ ω) (ns : List Node) : Prop :=
  ∀ t s, t.context = view s →
    R ((w.run s).1.flatMap see) (((Node.visitAll ns).run t).1.flatMap mark) ∧
      ((Node.visitAll ns).run t).2.context = view (w.run s).2

/-- Entering and leaving may change what is not seen. -/
theorem Visits.within_unseen {enter : σ → σ} {leave : σ → σ → σ} (h : w.Visits R view mark see ns)
    (henter : ∀ s, view (enter s) = view s) (hleave : ∀ s s', view (leave s s') = view s') :
    (within enter leave w).Visits R view mark see ns := by
  intro t s hts
  obtain ⟨hmet, hstate⟩ := h t (enter s) (hts.trans (henter s).symm)
  exact ⟨hmet, hstate.trans (hleave s _).symm⟩

theorem Visits.inOrder_last (h : w.Visits R view mark see ns) :
    (inOrder [w]).Visits R view mark see ns := by
  have hlast : inOrder [w] = w := andThen_skip w
  rw [hlast]
  exact h

variable [Compares R]

theorem visits_skip : Visits R view mark see skip [] :=
  fun _ _ h => ⟨Compares.refl [], h⟩

theorem visits_meet_unseen {f : σ → ω} (h : ∀ s, see (f s) = []) :
    Visits R view mark see (meet f) [] := by
  intro t s hts
  refine ⟨?_, hts⟩
  rw [meet_run, List.flatMap_singleton, h s]
  exact Compares.refl []

theorem visits_change_unseen {f : σ → σ} (h : ∀ s, view (f s) = view s) :
    Visits R view mark see (change f) [] :=
  fun _ s hts => ⟨Compares.refl [], hts.trans (h s).symm⟩

theorem Visits.andThen (h : w.Visits R view mark see ns) (h' : w'.Visits R view mark see ns') :
    (w.andThen w').Visits R view mark see (ns ++ ns') := by
  intro t s hts
  obtain ⟨hmet, hstate⟩ := h t s hts
  obtain ⟨hmet', hstate'⟩ := h' _ _ hstate
  rw [Node.visitAll_append, andThen_run, andThen_run, List.flatMap_append, List.flatMap_append]
  exact ⟨Compares.append hmet hmet', hstate'⟩

/-- Nodes that can be left out. -/
theorem Visits.before_skip (h : w.Visits R view mark see [])
    (hskip : skip.Visits R view mark see ns) : w.Visits R view mark see ns := by
  rw [← andThen_skip w]
  exact h.andThen hskip

theorem Visits.inOrder_cons (h : w.Visits R view mark see ns)
    (hs : (inOrder ws).Visits R view mark see ns') :
    (inOrder (w :: ws)).Visits R view mark see (ns ++ ns') :=
  h.andThen hs

/-- Two parts that go over the same nodes. -/
theorem Visits.pair_cons (h : (w.andThen w').Visits R view mark see ns)
    (hs : (inOrder ws).Visits R view mark see ns') :
    (inOrder (w :: w' :: ws)).Visits R view mark see (ns ++ ns') := by
  have hassoc : inOrder (w :: w' :: ws) = (w.andThen w').andThen (inOrder ws) :=
    (andThen_assoc w w' (inOrder ws)).symm
  rw [hassoc]
  exact h.andThen hs

/-- A node without anything below it. -/
theorem visits_leaf (hn : n.children = [])
    (h : ∀ t s, t.context = view s → (w.run s).1.flatMap see = mark ⟨t, n⟩ ∧
      (n.leave (n.enter t)).context = view (w.run s).2) :
    w.Visits R view mark see [n] := by
  intro t s hts
  have hnode : (Node.visitAll [n]).run t = n.visit.run t :=
    congrArg (fun v => v.run t) (andThen_skip n.visit)
  have hmarks : (PlacedNode.mk t n :: ((Node.visitAll []).run (n.enter t)).1).flatMap mark =
      mark ⟨t, n⟩ :=
    List.append_nil _
  rw [hnode, Node.visit_run, hn, hmarks, (h t s hts).1]
  exact ⟨Compares.refl _, (h t s hts).2⟩

/-- A node with a scope of its own: `first` sees the mark of the node and enters the scope, and `f`
leaves it. -/
theorem visits_scoped {first : Walk σ ω} {f : σ → σ}
    (hfirst : ∀ t s, t.context = view s → (first.run s).1.flatMap see = mark ⟨t, n⟩ ∧
      (n.enter t).context = view (first.run s).2)
    (hleave : ∀ t s, t.context = view s → (n.leave t).context = view (f s))
    (h : w.Visits R view mark see n.children) :
    (inOrder [first, w, change f]).Visits R view mark see [n] := by
  intro t s hts
  obtain ⟨hmark, henter⟩ := hfirst t s hts
  obtain ⟨hmet, hstate⟩ := h (n.enter t) (first.run s).2 henter
  have hnode : (Node.visitAll [n]).run t = n.visit.run t :=
    congrArg (fun v => v.run t) (andThen_skip n.visit)
  have hrun : ((inOrder [first, w, change f]).run s).1 =
      (first.run s).1 ++ (w.run (first.run s).2).1 := by
    simp [inOrder, andThen_run]
  rw [hnode, Node.visit_run, hrun, List.flatMap_append, List.flatMap_cons, hmark]
  exact ⟨Compares.append (Compares.refl _) hmet, hleave _ _ hstate⟩

/-- A node that leaves the scope as it is: `first` sees the mark of the node. -/
theorem visits_marked_cons {first : Walk σ ω} (hn : n.isScoped = false)
    (hfirst : ∀ t s, t.context = view s → (first.run s).1.flatMap see = mark ⟨t, n⟩ ∧
      (first.run s).2 = s)
    (h : w.Visits R view mark see (n.children ++ ns)) :
    (first.andThen w).Visits R view mark see (n :: ns) := by
  intro t s hts
  obtain ⟨hmark, hsame⟩ := hfirst t s hts
  obtain ⟨hmet, hstate⟩ := h t s hts
  rw [Node.visitAll_append, andThen_run, List.flatMap_append] at hmet
  rw [Node.visitAll_append, andThen_run] at hstate
  rw [Node.visitAll_cons, andThen_run, andThen_run, Node.visit_run, Node.enter_of_not_isScoped hn,
    Node.leave_of_not_isScoped hn, hsame]
  refine ⟨?_, hstate⟩
  rw [List.flatMap_append, hmark, List.cons_append, List.flatMap_cons, List.flatMap_append]
  exact Compares.append (Compares.refl _) hmet

theorem visits_marked {first : Walk σ ω} (hn : n.isScoped = false)
    (hfirst : ∀ t s, t.context = view s → (first.run s).1.flatMap see = mark ⟨t, n⟩ ∧
      (first.run s).2 = s)
    (h : w.Visits R view mark see n.children) : (first.andThen w).Visits R view mark see [n] :=
  visits_marked_cons hn hfirst (by rwa [List.append_nil])

/-- A node without a mark. -/
theorem Visits.node_cons (hn : n.isScoped = false) (hmark : ∀ t, mark ⟨t, n⟩ = [])
    (h : w.Visits R view mark see (n.children ++ ns)) : w.Visits R view mark see (n :: ns) := by
  have hall : (skip.andThen w).Visits R view mark see (n :: ns) :=
    visits_marked_cons hn (fun t _ _ => ⟨(hmark t).symm, rfl⟩) h
  exact hall

theorem Visits.node (hn : n.isScoped = false) (hmark : ∀ t, mark ⟨t, n⟩ = [])
    (h : w.Visits R view mark see n.children) : w.Visits R view mark see [n] :=
  .node_cons hn hmark (by rwa [List.append_nil])

end Walk
end CrossReference
