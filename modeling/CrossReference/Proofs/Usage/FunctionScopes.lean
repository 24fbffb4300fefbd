import CrossReference.Proofs.Usage.Landmarks
import CrossReference.Proofs.Usage.States
import CrossReference.Proofs.Workspace.Calls

/-!
# The scope of a function

Nothing is followed across the boundary of a function. What surrounds it reaches its body only as
the names that are in force, and what its body learns of variables ends with it.

* `Tracker.enclosing_node` says that every piece of a tree leaves the types around it as they were.
* `Tracker.Isolated` says that a walk can be taken out of the variables around it: it finds the same
  sites whatever they are, and it leaves them alone. `Tracker.isolated_function` says so of
  functions of all kinds.
-/

namespace CrossReference

open CrossReference.Tree

/-! ## The types around a piece of a tree -/

/-- The type that `enter` opens is closed by `leave`. -/
theorem Tree.Node.enclosing_leave {n : Node} {s s' : Scope}
    (h : s'.context.enclosing = (n.enter s).context.enclosing) :
    (n.leave s').context.enclosing = s.context.enclosing := by
  unfold leave
  unfold enter at h
  cases n with
  | classDecl isStatement decl => exact congrArg List.tail h
  | stmt stmt =>
      cases stmt with
      | imports kind items => exact h.trans (Declarations.enclosing_foldl_addImport ..)
      | _ => exact h
  | _ => exact h

theorem Tree.Node.enclosing_visitAll (ns : List Node) (s : Scope) :
    ((visitAll ns).run s).2.context.enclosing = s.context.enclosing := by
  refine visitAll_induction (P := fun _ s _ s' => s'.context.enclosing = s.context.enclosing)
    ?_ ?_ ?_ ns s
  · exact fun _ => rfl
  · intro n ns s xs s' ys s'' hxs hys
    exact hys.trans hxs
  · intro n s xs s' hxs
    exact enclosing_leave hxs

namespace Tracker

variable {r : Resolver}

theorem Visits.enclosing_run {w : Tracker} {ns : List Node} (h : w.Visits ns) (p : Place) :
    (w.run p).2.context.enclosing = p.context.enclosing := by
  have hcontext := (h { context := p.context } p rfl).2
  rw [← hcontext]
  exact Node.enclosing_visitAll ns _

/-- Every piece of a tree leaves the types around it as they were. -/
theorem enclosing_node (mode : Mode) (n : Node) (p : Place) :
    ((node r mode n).run p).2.context.enclosing = p.context.enclosing := by
  cases n with
  | expr e => exact (visits_expr r mode e).enclosing_run p
  | operand position target => exact (visits_operand r position target).enclosing_run p
  | memberName name => exact (visits_memberName r name).enclosing_run p
  | callee target =>
      cases target with
      | named name => rfl
      | value e => exact (visits_expr r .read e).enclosing_run p
  | typeHint hint => exact (visits_typeHint? (some hint)).enclosing_run p
  | param q => exact (visits_params r [q]).enclosing_run p
  | classDecl isStatement decl => exact (visits_classDecl r isStatement decl).enclosing_run p
  | member m => exact (visits_member r m).enclosing_run p
  | stmt s => exact (visits_stmt r s).enclosing_run p
  | constItem item => exact (visits_constItems r [item]).enclosing_run p
  | catchClause clause => exact (visits_catchClauses r [clause]).enclosing_run p

end Tracker

/-! ## Walks apart from the variables around them -/

/-- The default value of a parameter. -/
def Tree.Param.default? : Param → Option Expr
  | .mk _ _ _ default _ _ => default

/-- The sites among some events, with what names mean there. -/
def Search.sitesOf (s : Search) (events : List Event) : List (Context × Site) :=
  events.filterMap fun e => (s.site? e).map fun site => (e.place.context, site)

theorem Search.sitesOf_append (s : Search) (events events' : List Event) :
    s.sitesOf (events ++ events') = s.sitesOf events ++ s.sitesOf events' :=
  List.filterMap_append ..

/-- The states differ at most in what is known of the variables of the current scope. -/
structure Place.SameAround (p q : Place) : Prop where
  context : p.context = q.context
  hopLimit : p.locals.hopLimit = q.locals.hopLimit

namespace Tracker

/-- A walk that finds the same sites whatever is known of the variables around it, and that leaves
them as they were. -/
structure Isolated (s : Search) (w : Tracker) : Prop where
  locals_run : ∀ p, (w.run p).2.locals = p.locals
  context_run : ∀ p q, p.SameAround q → (w.run p).2.context = (w.run q).2.context
  sites_run : ∀ p q, p.SameAround q → s.sitesOf (w.run p).1 = s.sitesOf (w.run q).1

variable {s : Search} {w w' : Tracker}

theorem Isolated.sameAround (h : w.Isolated s) {p q : Place} (hpq : p.SameAround q) :
    (w.run p).2.SameAround (w.run q).2 where
  context := h.context_run p q hpq
  hopLimit := by
    rw [h.locals_run, h.locals_run]
    exact hpq.hopLimit

theorem isolated_skip : Isolated s .skip where
  locals_run _ := rfl
  context_run _ _ h := h.context
  sites_run _ _ _ := rfl

theorem Isolated.andThen (h : w.Isolated s) (h' : w'.Isolated s) : Isolated s (w.andThen w') where
  locals_run p := (h'.locals_run _).trans (h.locals_run p)
  context_run p q hpq := h'.context_run _ _ (h.sameAround hpq)
  sites_run p q hpq := by
    rw [Walk.andThen_run, Walk.andThen_run, s.sitesOf_append, s.sitesOf_append,
      h.sites_run p q hpq, h'.sites_run _ _ (h.sameAround hpq)]

theorem isolated_inOrder {ws : List Tracker} (h : ∀ w ∈ ws, w.Isolated s) :
    Isolated s (.inOrder ws) := by
  induction ws with
  | nil => exact isolated_skip
  | cons w ws ih =>
      rw [List.forall_mem_cons] at h
      exact h.1.andThen (ih h.2)

/-- Which class a name stands for does not depend on variables. -/
theorem isolated_typeName (name : Word) (role : UsageKind) :
    (refer (.typeName name role)).Isolated s where
  locals_run _ := rfl
  context_run _ _ h := h.context
  sites_run p q h := by
    have hsite : s.site? ⟨p, .typeName name role⟩ = s.site? ⟨q, .typeName name role⟩ :=
      congrArg (fun ctx => s.typeNameSite? ctx name role) h.context
    simp only [refer, Walk.meet_run, Search.sitesOf, List.filterMap_cons, hsite, h.context]

theorem isolated_typeHint? (hint : Option TypeHint) : (typeHint? hint).Isolated s := by
  cases hint with
  | none => exact isolated_skip
  | some hint =>
      apply isolated_inOrder
      intro w hw
      obtain ⟨name, _, rfl⟩ := List.mem_map.1 hw
      exact isolated_typeName name .typePosition

/-- Parameters without defaults are nothing but names of classes. -/
theorem isolated_params (r : Resolver) {ps : List Param} (h : ∀ q ∈ ps, q.default? = none) :
    (params r ps).Isolated s := by
  induction ps with
  | nil => exact isolated_skip
  | cons q ps ih =>
      obtain ⟨name, hint, doc, default, promoted, span⟩ := q
      rw [List.forall_mem_cons] at h
      obtain rfl : default = none := h.1
      exact (isolated_typeHint? hint).andThen
        (isolated_skip.andThen ((ih h.2).andThen isolated_skip))

theorem enterFunction_congr (r : Resolver) (ps : List Param) {p q : Place} (h : p.SameAround q) :
    enterFunction r ps p = enterFunction r ps q := by
  unfold enterFunction Locals.nested
  rw [h.context, h.hopLimit]

/-- A body starts with its parameters and with the names in force, and when it is left the variables
around it are put back. -/
theorem isolated_functionBody (r : Resolver) (ps : List Param) (captured : List String)
    (body : Tracker) : (functionBody r ps captured body).Isolated s := by
  have hrun : ∀ p, (functionBody r ps captured body).run p =
      let start := enterFunction r ps p
      let inner := body.run { start with locals := captured.foldl Locals.forget start.locals }
      (inner.1, { inner.2 with locals := p.locals }) := fun _ => rfl
  refine ⟨fun _ => rfl, fun p q h => ?_, fun p q h => ?_⟩
  · rw [hrun, hrun, enterFunction_congr r ps h]
  · rw [hrun, hrun, enterFunction_congr r ps h]

end Tracker

/-! ## Functions of all kinds -/

/-- The parameters of a function declaration, a method, a closure or an arrow function. -/
def Tree.Node.parameters? : Node → Option (List Param)
  | stmt (.function _ ps _ _) => some ps
  | member (.method _ _ _ ps _ _) => some ps
  | expr (.closure ps _ _ _ _) => some ps
  | expr (.arrow ps _ _ _) => some ps
  | _ => none

namespace Tracker

theorem ofNode_of_parameters? {n : Node} {ps : List Param} (h : n.parameters? = some ps)
    (mode : Mode) : ∃ captured returns body,
      Stage.ofNode mode n = Stage.function ps captured returns body := by
  unfold Node.parameters? at h
  split at h
  · obtain rfl := Option.some.inj h
    exact ⟨_, _, _, rfl⟩
  · obtain rfl := Option.some.inj h
    exact ⟨_, _, _, rfl⟩
  · obtain rfl := Option.some.inj h
    exact ⟨_, _, _, rfl⟩
  · obtain rfl := Option.some.inj h
    exact ⟨_, _, _, rfl⟩
  · exact absurd h (by simp)

theorem isolated_function {s : Search} (r : Resolver) (mode : Mode) {n : Node} {ps : List Param}
    (hn : n.parameters? = some ps) (hps : ∀ q ∈ ps, q.default? = none) :
    (node r mode n).Isolated s := by
  obtain ⟨captured, returns, body, hstages⟩ := ofNode_of_parameters? hn mode
  rw [← stages_ofNode, hstages, stages_function]
  exact (isolated_params r hps).andThen ((isolated_typeHint? returns).andThen
    ((isolated_functionBody r ps captured _).andThen isolated_skip))

/-- Every piece of a tree leaves the types around it as they were. A function of any kind whose
parameters have no defaults finds the same sites whatever is known of the variables around it, and
leaves what is known of them as it was. -/
theorem function_apart_from_variables (s : Search) :
    (∀ mode n p, ((node s.resolver mode n).run p).2.context.enclosing = p.context.enclosing) ∧
    ∀ mode n ps, n.parameters? = some ps → (∀ q ∈ ps, q.default? = none) →
      ∀ p q : Place, p.context = q.context → p.locals.hopLimit = q.locals.hopLimit →
        s.sitesOf ((node s.resolver mode n).run p).1 =
            s.sitesOf ((node s.resolver mode n).run q).1 ∧
          ((node s.resolver mode n).run p).2.locals = p.locals ∧
          ((node s.resolver mode n).run q).2.locals = q.locals := by
  refine ⟨fun mode n p => enclosing_node mode n p, ?_⟩
  intro mode n ps hn hps p q hcontext hlimit
  have hisolated := isolated_function (s := s) s.resolver mode hn hps
  exact ⟨hisolated.sites_run p q ⟨hcontext, hlimit⟩, hisolated.locals_run p,
    hisolated.locals_run q⟩

/-- A class with a method. -/
def widgetFile : SourceFile where
  path := "widget.php"
  text := "class Widget \x7b function draw() \x7b\x7d \x7d"
  tree := some
    [.classLike (.mk .classDecl (some ⟨"Widget", ⟨6, 12⟩⟩) [] []
      [.method ⟨"draw", ⟨24, 28⟩⟩ .everyone false [] none []])]

/-- `function (Widget $w) use ($x) { $w->draw(); $x->draw(); $y->draw(); }` -/
def drawingClosure : Expr :=
  .closure [.mk "w" (some (.named ⟨"Widget", ⟨10, 16⟩⟩)) none none none ⟨10, 19⟩] ["x"] none
    [.expr (.methodCall (.var "w" ⟨32, 34⟩) (.ident ⟨"draw", ⟨36, 40⟩⟩) [] false ⟨32, 42⟩),
      .expr (.methodCall (.var "x" ⟨44, 46⟩) (.ident ⟨"draw", ⟨48, 52⟩⟩) [] false ⟨44, 54⟩),
      .expr (.methodCall (.var "y" ⟨56, 58⟩) (.ident ⟨"draw", ⟨60, 64⟩⟩) [] false ⟨56, 66⟩)] ⟨0, 69⟩

/-- Around the closure an assignment tells what `$x` is and documentation what `$y` is; inside it
only the parameter is known. -/
theorem drawingClosure_apart_from_variables :
    let c := (Workspace.after {} [.setFile widgetFile]).snapshot.catalog
    let s := Search.ofQuery c {} (.member "Widget" "draw" .method)
    let p : Place := { locals := ((Locals.start 3).assign "x"
      (.object (some "Widget") .constructed)).document "y" "Widget" }
    let q : Place := { locals := .start 3 }
    let w := node s.resolver .read (.expr drawingClosure)
    (p.locals.get "x" ≠ q.locals.get "x" ∧ p.locals.get "y" ≠ q.locals.get "y") ∧
      (s.sitesOf (w.run p).1).map (fun found => found.2.kind) =
        [.instanceMemberAccess, .dynamicCall, .dynamicCall] ∧
      s.sitesOf (w.run p).1 = s.sitesOf (w.run q).1 ∧
      (w.run p).2.locals = p.locals ∧ (w.run q).2.locals = q.locals ∧
      (w.run p).2.context.enclosing = p.context.enclosing := by
  intro c s p q w
  obtain ⟨htypes, happart⟩ := function_apart_from_variables s
  obtain ⟨hsites, hp, hq⟩ := happart .read (.expr drawingClosure) _ rfl (by decide) p q rfl rfl
  exact ⟨by decide +kernel, by decide +kernel, hsites, hp, hq, htypes .read _ p⟩

end Tracker
end CrossReference
