import CrossReference.Proofs.Usage.Occurrences
import Mathlib.Data.List.Basic

/-!
# Landmarks of a walk

Some things are met by the walk before anything inside the node that they belong to: the names of a
node, the body of a type, `self` and `static`, and a member of `$this`. These are met once each, in
the order of the text and with what is in force at the node. Whatever the walk does with variables
is not seen here.

* `landmarks_eventsOf` is the result, by one induction over the tree. It ties the events of a walk
  to the nodes of the file.
* `use?_eventsOf` draws the conclusion for names: the walk meets those of the file, each once.
-/

namespace CrossReference

open CrossReference.Tree

/-- What is met before anything inside the node that it belongs to. -/
inductive Landmark where
  | name (kind : NameKind) (role : UsageKind) (word : Word)
  | typeBody
  /-- `self` or `static` in the place of a class. -/
  | keyword (target : ClassRef)
  /-- A member of `$this`, which stands at `this`. -/
  | ownMember (this : Span) (name : Word) (access : MemberAccess)

/-- The member that is accessed on `$this`, with the span of `$this`. -/
def ownMember? : Expr → MemberName → Option (Span × Word)
  | .var name span, .ident member => if name = "this" then some (span, member) else none
  | _, _ => none

theorem eq_of_ownMember? {receiver : Expr} {member : MemberName} {this : Span} {name : Word}
    (h : ownMember? receiver member = some (this, name)) :
    receiver = .var "this" this ∧ member = .ident name := by
  unfold ownMember? at h
  split at h
  · obtain ⟨rfl, hfound⟩ := Option.ite_none_right_eq_some.1 h
    obtain ⟨rfl, rfl⟩ := Prod.mk.inj (Option.some.inj hfound)
    exact ⟨rfl, rfl⟩
  · exact absurd h (by simp)

/-- `self` and `static`. -/
def Tree.ClassRef.isSelf : ClassRef → Bool
  | .selfType _ => true
  | .staticType _ => true
  | _ => false

/-- `self` and `static` as landmarks. -/
def Tree.ClassRef.keyword? (target : ClassRef) : Option Landmark :=
  if target.isSelf then some (.keyword target) else none

/-- The landmark that an event is, with what is in force there. -/
def Event.landmarks (e : Event) : List (Context × Landmark) :=
  match e.reference with
  | .typeName name role => [(e.place.context, .name .classLike role name)]
  | .operand (.named name) role => [(e.place.context, .name .classLike role name)]
  | .operand target _ => target.keyword?.toList.map fun keyword => (e.place.context, keyword)
  | .call name _ => [(e.place.context, .name .function .functionCall name)]
  | .constant name => [(e.place.context, .name .constant .constantAccess name)]
  | .typeBody => [(e.place.context, .typeBody)]
  | .member (.object receiver) member access _ =>
    ((ownMember? receiver member).map fun (this, name) =>
      (e.place.context, .ownMember this name access)).toList
  | _ => []

/-- A name as a landmark. -/
def Occurrence.landmark (o : Occurrence) : Context × Landmark :=
  (o.context, .name o.position.kind o.position.role o.name)

namespace PlacedNode

/-- The landmarks of a node that have to do with the type around it, with what is in force there;
for a type, what is in force in its body. -/
def typeLandmarks (x : PlacedNode) : List (Context × Landmark) :=
  match x.node with
  | .classDecl _ _ => [((x.node.enter x.scope).context, .typeBody)]
  | .operand _ target => target.keyword?.toList.map fun keyword => (x.scope.context, keyword)
  | .expr (.methodCall receiver member _ _ _) =>
    ((ownMember? receiver member).map fun (this, name) =>
      (x.scope.context, .ownMember this name .instanceMethod)).toList
  | .expr (.property receiver member _ _) =>
    ((ownMember? receiver member).map fun (this, name) =>
      (x.scope.context, .ownMember this name .instanceProperty)).toList
  | _ => []

/-- The landmarks of a node: its names, and what has to do with the type around it. -/
def landmarks (x : PlacedNode) : List (Context × Landmark) :=
  x.occurrences.map Occurrence.landmark ++ x.typeLandmarks

/-- Names are passed over by what reads off the other landmarks. -/
theorem filterMap_landmarks {α : Type} {read : Context × Landmark → Option α}
    (hread : ∀ ctx kind role word, read (ctx, .name kind role word) = none) (x : PlacedNode) :
    x.landmarks.filterMap read = x.typeLandmarks.filterMap read := by
  have hnames : (x.occurrences.map Occurrence.landmark).filterMap read = [] := by
    rw [List.filterMap_map, List.filterMap_eq_nil_iff]
    exact fun o _ => hread o.context _ _ _
  rw [landmarks, List.filterMap_append, hnames, List.nil_append]

end PlacedNode

/-- The walk goes over the nodes and meets their landmarks. -/
abbrev Tracker.Visits (w : Tracker) (ns : List Node) : Prop :=
  Walk.Visits Eq Place.context PlacedNode.landmarks Event.landmarks w ns

namespace Tracker

/-! ## The parts of the walk -/

/-- A node that is no landmark. -/
theorem visits_refer_unseen {reference : Reference}
    (h : ∀ p, (Event.mk p reference).landmarks = []) : (refer reference).Visits [] :=
  Walk.visits_meet_unseen h

/-- The walk over names that are met in the same way. -/
theorem typeNames_run (role : UsageKind) (names : List Word) (p : Place) :
    (Walk.each (fun name => refer (.typeName name role)) names).run p =
      (names.map fun name => { place := p, reference := .typeName name role }, p) := by
  induction names with
  | nil => rfl
  | cons name names ih =>
      have hcons : Walk.each (fun name => refer (.typeName name role)) (name :: names) =
          (refer (.typeName name role)).andThen
            (.each (fun name => refer (.typeName name role)) names) := rfl
      rw [hcons, Walk.andThen_run, refer, Walk.meet_run, ih]
      rfl

/-- Names at a position are met as the landmarks that they are. -/
theorem flatMap_typeNames (position : NamePosition) (hkind : position.kind = .classLike)
    {x : PlacedNode} {p : Place} (hxp : x.scope.context = p.context) (names : List Word) :
    (names.map fun name => ({ place := p, reference := .typeName name position.role } :
        Event)).flatMap Event.landmarks =
      (x.named position names).map Occurrence.landmark := by
  simp [PlacedNode.named, Event.landmarks, Occurrence.landmark, hkind, hxp, List.flatMap_map,
    ← List.map_eq_flatMap]

theorem visits_typeHint? (hint : Option TypeHint) :
    (typeHint? hint).Visits (hint.toList.map .typeHint) := by
  cases hint with
  | none => exact Walk.visits_skip
  | some hint =>
      refine Walk.visits_leaf rfl fun t p htp => ?_
      rw [typeHint?, typeHint, typeNames_run]
      refine ⟨?_, htp⟩
      rw [PlacedNode.landmarks, PlacedNode.typeLandmarks, List.append_nil]
      exact flatMap_typeNames .hint rfl htp hint.names

/-- Variables are not seen, so a function body is gone over like any other list of statements. -/
theorem visits_functionBody (r : Resolver) (ps : List Param) (captured : List String) {w : Tracker}
    {ns : List Node} (h : w.Visits ns) : (functionBody r ps captured w).Visits ns :=
  h.within_unseen (fun _ => rfl) fun _ _ => rfl

theorem visits_assign (r : Resolver) (var : String) (e : Expr) : (assign r var e).Visits [] := by
  unfold assign
  split
  · exact Walk.visits_skip
  · exact Walk.visits_change_unseen fun _ => rfl

theorem visits_bindCaught (r : Resolver) (types : List Word) (var : Option String) :
    (bindCaught r types var).Visits [] := by
  cases var with
  | none => exact Walk.visits_skip
  | some var => exact Walk.visits_change_unseen fun _ => rfl

theorem visits_document (r : Resolver) (var : String) (hint : TypeHint) :
    (document r var hint).Visits [] := by
  apply Walk.visits_change_unseen
  intro p
  split
  · rfl
  · rfl

theorem importAll_run (kind : NameKind) (items : List ImportItem) (p : Place) :
    ((importAll kind items).run p).1.flatMap Event.landmarks = [] ∧
      ((importAll kind items).run p).2.context = items.foldl
        (fun ctx item => ctx.addImport kind item.localName item.name.text) p.context := by
  induction items generalizing p with
  | nil => exact ⟨rfl, rfl⟩
  | cons item items ih => exact ih _

theorem visits_importAll (kind : NameKind) (items : List ImportItem) :
    (importAll kind items).Visits [.stmt (.imports kind items)] := by
  refine Walk.visits_leaf rfl fun t p htp => ?_
  obtain ⟨hmet, hcontext⟩ := importAll_run kind items p
  rw [hmet, hcontext, ← htp]
  exact ⟨rfl, rfl⟩

theorem visits_namespaceLine (name : Option Word) :
    (changeContext (·.enterNamespace (name.map Word.text))).Visits [.stmt (.namespaceLine name)] :=
  Walk.visits_leaf rfl fun _ _ htp => ⟨rfl, congrArg (·.enterNamespace (name.map Word.text)) htp⟩

theorem visits_namespaceBlock {name : Option Word} {body : List Stmt} {w : Tracker}
    (h : w.Visits (body.map .stmt)) :
    Tracker.Visits (.inOrder [changeContext (·.enterNamespace (name.map Word.text)), w,
      changeContext (·.enterNamespace none)]) [.stmt (.namespaceBlock name body)] :=
  Walk.visits_scoped
    (fun _ _ htp => ⟨rfl, congrArg (·.enterNamespace (name.map Word.text)) htp⟩)
    (fun _ _ htp => congrArg (·.enterNamespace none) htp) h

/-- A declaration of a type: its clauses are met before its body is opened. -/
theorem visits_declaration {isStatement : Bool} {kind : ClassKind} {word : Option Word}
    {parents interfaces : List Word} {ms : List Member} {w : Tracker}
    (h : w.Visits (ms.map .member)) :
    Tracker.Visits (.inOrder [clause parents, clause interfaces, typeBody word w])
      [.classDecl isStatement (.mk kind word parents interfaces ms)] := by
  let first : Tracker := .inOrder [clause parents, clause interfaces,
    changeContext fun ctx => ctx.pushType (bodyName ctx word), refer .typeBody]
  have hall : Tracker.Visits (.inOrder [first, w, changeContext Context.popType])
      [.classDecl isStatement (.mk kind word parents interfaces ms)] := by
    refine Walk.visits_scoped (fun t p htp => ?_) (fun _ _ htp => congrArg Context.popType htp) h
    have hcontext : t.context.pushType (bodyName t.context word) =
        p.context.pushType (bodyName p.context word) := by rw [htp]
    have hrun : first.run p =
        (parents.map (fun name => { place := p, reference := .typeName name .inheritanceClause }) ++
          (interfaces.map (fun name =>
            { place := p, reference := .typeName name .inheritanceClause }) ++
          [{ place := { p with context := p.context.pushType (bodyName p.context word) },
             reference := .typeBody }]),
          { p with context := p.context.pushType (bodyName p.context word) }) := by
      simp only [first, clause, Walk.inOrder, Walk.andThen_run, typeNames_run, changeContext]
      simp [refer]
    rw [hrun]
    refine ⟨?_, hcontext⟩
    have hparents := flatMap_typeNames .extended rfl
      (x := ⟨t, .classDecl isStatement (.mk kind word parents interfaces ms)⟩) htp parents
    have hinterfaces := flatMap_typeNames .implemented rfl
      (x := ⟨t, .classDecl isStatement (.mk kind word parents interfaces ms)⟩) htp interfaces
    rw [List.flatMap_append, List.flatMap_append]
    simp only [NamePosition.role] at hparents hinterfaces
    rw [hparents, hinterfaces]
    simp [PlacedNode.landmarks, PlacedNode.occurrences, PlacedNode.typeLandmarks, Event.landmarks,
      Node.enter, ClassBody.typeName, ClassDecl.name?, ClassDecl.parents, ClassDecl.interfaces,
      hcontext]
  -- `bodyName` is the name that `typeBody` chooses.
  have hwalk : Walk.inOrder [clause parents, clause interfaces, typeBody word w] =
      .inOrder [first, w, changeContext Context.popType] := by
    cases word <;>
      simp only [first, typeBody, bodyName, Walk.inOrder, Walk.andThen_assoc, Walk.andThen_skip]
  rw [hwalk]
  exact hall

/-- An access to a member, with what is walked after it. -/
theorem visits_access {r : Resolver} {receiver : Expr} {member : MemberName}
    {access : MemberAccess} {nullsafe : Bool} {n : Node} {ns : List Node} {ws : List Tracker}
    (hreceiver : (expr r .read receiver).Visits [.expr receiver])
    (hmember : (memberName r member).Visits [.memberName member])
    (hn : n.isScoped = false) (hchildren : n.children = .expr receiver :: .memberName member :: ns)
    (hmark : ∀ t, (PlacedNode.mk t n).landmarks = ((ownMember? receiver member).map fun found =>
      (t.context, Landmark.ownMember found.1 found.2 access)).toList)
    (hrest : Tracker.Visits (.inOrder ws) ns) :
    Tracker.Visits (.inOrder (expr r .read receiver :: memberName r member ::
      refer (.member (.object receiver) member access nullsafe) :: ws)) [n] := by
  cases hown : ownMember? receiver member with
  | none =>
      have hunseen : (refer (.member (.object receiver) member access nullsafe)).Visits [] :=
        visits_refer_unseen fun p => by simp [Event.landmarks, hown]
      refine .node hn (fun t => by rw [hmark, hown]; rfl) ?_
      rw [hchildren]
      exact hreceiver.inOrder_cons (hmember.inOrder_cons (hunseen.inOrder_cons hrest))
  | some found =>
      -- Nothing is walked in `$this` or in a name, so the access is met first.
      obtain ⟨this, name⟩ := found
      obtain ⟨rfl, rfl⟩ := eq_of_ownMember? hown
      have hbelow : Tracker.Visits (.inOrder ws) n.children := by
        rw [hchildren]
        exact .node_cons rfl (fun _ => rfl) (.node_cons rfl (fun _ => rfl) hrest)
      have hall : Tracker.Visits (.andThen (refer (.member (.object (.var "this" this))
          (.ident name) access nullsafe)) (.inOrder ws)) [n] := by
        refine Walk.visits_marked hn (fun t p htp => ⟨?_, rfl⟩) hbelow
        rw [hmark, htp]
        rfl
      exact hall

/-! ## The induction over the tree -/

mutual

-- The children of a node are gone over from left to right; what is no landmark is passed over.
theorem visits_expr (r : Resolver) (mode : Mode) : (e : Expr) → (expr r mode e).Visits [.expr e]
  | .var name _ => by
      refine .node rfl (fun _ => rfl) ?_
      cases mode with
      | read => exact Walk.visits_skip
      | write => exact Walk.visits_change_unseen fun _ => rfl
  | .text _ _ => .node rfl (fun _ => rfl) Walk.visits_skip
  | .literal _ => .node rfl (fun _ => rfl) Walk.visits_skip
  | .constant name =>
      Walk.visits_leaf rfl fun _ _ htp =>
        ⟨congrArg (fun ctx => [(ctx, Landmark.name .constant .constantAccess name)]) htp.symm, htp⟩
  | .new target args _ =>
      .node rfl (fun _ => rfl) ((visits_operand r .instantiated target).pair_cons
        ((visits_refer_unseen fun _ => rfl).inOrder_cons (visits_exprs r .read args).inOrder_last))
  | .newAnonymous decl args _ =>
      .node rfl (fun _ => rfl) ((visits_exprs r .read args).inOrder_cons
        (visits_classDecl r false decl).inOrder_last)
  | .call (.named name) args span => by
      have hargs : Tracker.Visits (.inOrder [exprs r .read args])
          (.callee (.named name) :: args.map .expr) :=
        .node_cons rfl (fun _ => rfl) (visits_exprs r .read args).inOrder_last
      have hall : Tracker.Visits
          (.andThen (refer (.call name args)) (.inOrder [exprs r .read args]))
          [.expr (.call (.named name) args span)] :=
        Walk.visits_marked rfl (fun _ _ htp =>
          ⟨congrArg (fun ctx => [(ctx, Landmark.name .function .functionCall name)]) htp.symm,
            rfl⟩) hargs
      exact hall
  | .call (.value callee) args _ => by
      have hcallee : (expr r .read callee).Visits [.callee (.value callee)] :=
        .node rfl (fun _ => rfl) (visits_expr r .read callee)
      exact .node rfl (fun _ => rfl) (hcallee.inOrder_cons
        ((visits_refer_unseen fun _ => rfl).inOrder_cons (visits_exprs r .read args).inOrder_last))
  | .methodCall receiver member args _ _ =>
      visits_access (visits_expr r .read receiver) (visits_memberName r member) rfl rfl
        (fun _ => rfl) (visits_exprs r .read args).inOrder_last
  | .property receiver member _ _ =>
      visits_access (visits_expr r .read receiver) (visits_memberName r member) rfl rfl
        (fun _ => rfl) Walk.visits_skip
  | .staticCall target method args _ =>
      .node rfl (fun _ => rfl) ((visits_operand r .accessed target).pair_cons
        ((visits_memberName r method).inOrder_cons
          ((visits_refer_unseen fun _ => rfl).inOrder_cons
            (visits_exprs r .read args).inOrder_last)))
  | .staticProperty target member _ =>
      .node rfl (fun _ => rfl) ((visits_operand r .accessed target).pair_cons
        ((visits_memberName r member).inOrder_cons
          (visits_refer_unseen fun _ => rfl).inOrder_last))
  | .classConstant target name _ => by
      have hmember : Tracker.Visits (if Text.sameFolded name.text "class" then .skip
          else refer (.member (.type target) (.ident name) .constant false)) [] := by
        split
        · exact Walk.visits_skip
        · exact visits_refer_unseen fun _ => rfl
      exact .node rfl (fun _ => rfl) ((visits_operand r .constantOwner target).pair_cons
        hmember.inOrder_last)
  | .instanceOf subject target _ =>
      .node rfl (fun _ => rfl) ((visits_expr r .read subject).inOrder_cons
        ((visits_operand r .tested target).pair_cons Walk.visits_skip))
  | .assign target assigned _ => by
      rw [expr]
      refine .node rfl (fun _ => rfl) ((visits_expr r .read assigned).inOrder_cons
        (Walk.Visits.inOrder_last ?_))
      -- Nothing is walked in a variable; any other target is walked as a target.
      cases target with
      | var name _ => exact .node rfl (fun _ => rfl) (visits_assign r name assigned)
      | _ => exact visits_expr r .write _
  | .array items _ => .node rfl (fun _ => rfl) (visits_exprs r mode items)
  | .closure ps captured returns body _ =>
      .node rfl (fun _ => rfl) ((visits_params r ps).inOrder_cons
        ((visits_typeHint? returns).inOrder_cons
          (visits_functionBody r ps captured (visits_stmts r body)).inOrder_last))
  | .arrow ps returns body _ =>
      .node rfl (fun _ => rfl) ((visits_params r ps).inOrder_cons
        ((visits_typeHint? returns).inOrder_cons
          (visits_functionBody r ps [] (visits_expr r .read body)).inOrder_last))
  | .compound children _ => .node rfl (fun _ => rfl) (visits_exprs r .read children)

theorem visits_exprs (r : Resolver) (mode : Mode) : (es : List Expr) →
    (exprs r mode es).Visits (es.map .expr)
  | [] => Walk.visits_skip
  | e :: es => (visits_expr r mode e).andThen (visits_exprs r mode es)

theorem visits_expr? (r : Resolver) (mode : Mode) : (e : Option Expr) →
    (expr? r mode e).Visits (e.toList.map .expr)
  | none => Walk.visits_skip
  | some e => visits_expr r mode e

-- A class is met after what is evaluated to find it.
theorem visits_operand (r : Resolver) (position : OperandPosition) : (target : ClassRef) →
    Tracker.Visits
      ((operand r target).andThen (refer (.operand target (NamePosition.ofOperand position).role)))
      [.operand position target]
  | .named name => by
      refine Walk.visits_leaf rfl fun t p htp => ⟨?_, htp⟩
      simp [operand, refer, Walk.andThen_run, Event.landmarks, PlacedNode.landmarks,
        PlacedNode.occurrences, PlacedNode.named, PlacedNode.typeLandmarks, Occurrence.landmark,
        ClassRef.keyword?, ClassRef.isSelf, NamePosition.kind_ofOperand, htp]
  | .selfType span =>
      Walk.visits_leaf rfl fun _ _ htp =>
        ⟨congrArg (fun ctx => [(ctx, Landmark.keyword (.selfType span))]) htp.symm, htp⟩
  | .staticType span =>
      Walk.visits_leaf rfl fun _ _ htp =>
        ⟨congrArg (fun ctx => [(ctx, Landmark.keyword (.staticType span))]) htp.symm, htp⟩
  | .parentType _ => .node rfl (fun _ => rfl) (visits_refer_unseen fun _ => rfl)
  | .dynamic e =>
      .node rfl (fun _ => rfl) ((visits_expr r .read e).andThen (visits_refer_unseen fun _ => rfl))

theorem visits_memberName (r : Resolver) : (member : MemberName) →
    (memberName r member).Visits [.memberName member]
  | .ident _ => .node rfl (fun _ => rfl) Walk.visits_skip
  | .dynamic e => .node rfl (fun _ => rfl) (visits_expr r .read e)

theorem visits_params (r : Resolver) : (ps : List Param) → (params r ps).Visits (ps.map .param)
  | [] => Walk.visits_skip
  | .mk name hint doc default promoted span :: ps => by
      have hall := (visits_typeHint? hint).inOrder_cons
        ((visits_expr? r .read default).inOrder_cons (visits_params r ps).inOrder_last)
      rw [← List.append_assoc] at hall
      exact .node_cons (n := .param (.mk name hint doc default promoted span)) rfl (fun _ => rfl)
        hall

theorem visits_classDecl (r : Resolver) (isStatement : Bool) : (decl : ClassDecl) →
    (classDecl r decl).Visits [.classDecl isStatement decl]
  | .mk _ _ _ _ ms => visits_declaration (visits_members r ms)

theorem visits_members (r : Resolver) : (ms : List Member) → (members r ms).Visits (ms.map .member)
  | [] => Walk.visits_skip
  | m :: ms => (visits_member r m).andThen (visits_members r ms)

theorem visits_member (r : Resolver) : (m : Member) → (member r m).Visits [.member m]
  | .method _ _ _ ps returns body =>
      .node rfl (fun _ => rfl) ((visits_params r ps).inOrder_cons
        ((visits_typeHint? returns).inOrder_cons
          (visits_functionBody r ps [] (visits_stmts r body)).inOrder_last))
  | .property _ _ _ hint _ default =>
      .node rfl (fun _ => rfl) ((visits_typeHint? hint).inOrder_cons
        (visits_expr? r .read default).inOrder_last)
  | .constant _ _ e => .node rfl (fun _ => rfl) (visits_expr r .read e)
  | .enumCase _ e => .node rfl (fun _ => rfl) (visits_expr? r .read e)
  | .traitUse traits => by
      refine Walk.visits_leaf rfl fun t p htp => ?_
      rw [member, clause, typeNames_run]
      refine ⟨?_, htp⟩
      rw [PlacedNode.landmarks, PlacedNode.typeLandmarks, List.append_nil]
      exact flatMap_typeNames .mixedIn rfl htp traits

theorem visits_stmt (r : Resolver) : (s : Stmt) → (stmt r s).Visits [.stmt s]
  | .namespaceLine name => visits_namespaceLine name
  | .namespaceBlock _ body => visits_namespaceBlock (visits_stmts r body)
  | .imports kind items => visits_importAll kind items
  | .classLike decl => .node rfl (fun _ => rfl) (visits_classDecl r true decl)
  | .function _ ps returns body =>
      .node rfl (fun _ => rfl) ((visits_params r ps).inOrder_cons
        ((visits_typeHint? returns).inOrder_cons
          (visits_functionBody r ps [] (visits_stmts r body)).inOrder_last))
  | .constants items => .node rfl (fun _ => rfl) (visits_constItems r items)
  | .expr e => .node rfl (fun _ => rfl) (visits_expr r .read e)
  | .returned e => .node rfl (fun _ => rfl) (visits_expr? r .read e)
  | .echo es => .node rfl (fun _ => rfl) (visits_exprs r .read es)
  | .branch cond thenBody elseBody =>
      .node rfl (fun _ => rfl) ((visits_expr r .read cond).inOrder_cons
        ((visits_stmts r thenBody).inOrder_cons (visits_stmts r elseBody).inOrder_last))
  | .loop header body =>
      .node rfl (fun _ => rfl) ((visits_exprs r .read header).inOrder_cons
        (visits_stmts r body).inOrder_last)
  | .forEach subject key element body =>
      .node rfl (fun _ => rfl) ((visits_expr r .read subject).inOrder_cons
        ((visits_expr? r .write key).inOrder_cons ((visits_expr r .write element).inOrder_cons
          (visits_stmts r body).inOrder_last)))
  | .attempt body catches cleanup =>
      .node rfl (fun _ => rfl) ((visits_stmts r body).inOrder_cons
        ((visits_catchClauses r catches).inOrder_cons (visits_stmts r cleanup).inOrder_last))
  | .block body => .node rfl (fun _ => rfl) (visits_stmts r body)
  | .varDoc var hint => .node rfl (fun _ => rfl) (visits_document r var hint)
  | .globals _ => .node rfl (fun _ => rfl) (Walk.visits_change_unseen fun _ => rfl)

theorem visits_stmts (r : Resolver) : (ss : List Stmt) → (stmts r ss).Visits (ss.map .stmt)
  | [] => Walk.visits_skip
  | s :: ss => (visits_stmt r s).andThen (visits_stmts r ss)

theorem visits_constItems (r : Resolver) : (items : List ConstItem) →
    (constItems r items).Visits (items.map .constItem)
  | [] => Walk.visits_skip
  | .mk _ e :: items =>
      .node_cons rfl (fun _ => rfl) ((visits_expr r .read e).andThen (visits_constItems r items))

theorem visits_catchClauses (r : Resolver) : (catches : List Catch) →
    (catchClauses r catches).Visits (catches.map .catchClause)
  | [] => Walk.visits_skip
  | .mk types var body :: catches => by
      have hrest : Tracker.Visits
          (.inOrder [bindCaught r types var, stmts r body, catchClauses r catches])
          ((Node.catchClause (.mk types var body)).children ++ catches.map .catchClause) :=
        (visits_bindCaught r types var).inOrder_cons ((visits_stmts r body).inOrder_cons
          (visits_catchClauses r catches).inOrder_last)
      refine Walk.visits_marked_cons rfl (fun t p htp => ?_) hrest
      rw [typeNames_run]
      refine ⟨?_, rfl⟩
      rw [PlacedNode.landmarks, PlacedNode.typeLandmarks, List.append_nil]
      exact flatMap_typeNames .caught rfl htp types

end

end Tracker

/-- The landmarks that a walk over a file meets are those of the nodes of the file, each once and in
the order of the text, with what is in force there. -/
theorem landmarks_eventsOf (r : Resolver) (hopLimit : Nat) (ss : List Stmt) :
    (eventsOf r hopLimit ss).flatMap Event.landmarks =
      (placedNodes ss).flatMap PlacedNode.landmarks :=
  (Tracker.visits_stmts r ss {} { locals := .start hopLimit } rfl).1

/-- What can be read off the landmarks is the same for the events and for the nodes. -/
theorem filterMap_eventsOf {α : Type} (read : Context × Landmark → Option α)
    {fromEvent : Event → Option α} {fromNode : PlacedNode → Option α} {ss : List Stmt}
    (hevent : ∀ e, (fromEvent e).toList = e.landmarks.filterMap read)
    (hnode : ∀ x ∈ placedNodes ss, (fromNode x).toList = x.landmarks.filterMap read)
    (r : Resolver) (hopLimit : Nat) :
    (eventsOf r hopLimit ss).filterMap fromEvent = (placedNodes ss).filterMap fromNode := by
  rw [List.filterMap_eq_flatMap_toList, List.filterMap_eq_flatMap_toList, funext hevent,
    List.flatMap_congr hnode, ← List.filterMap_flatMap, ← List.filterMap_flatMap,
    landmarks_eventsOf]

/-! ## Names -/

/-- What an event and an occurrence can both tell of a name. -/
structure NameUse where
  context : Context
  kind : NameKind
  role : UsageKind
  name : Word

/-- An occurrence without its exact position. -/
def Occurrence.use (o : Occurrence) : NameUse where
  context := o.context
  kind := o.position.kind
  role := o.position.role
  name := o.name

/-- The name that a node is, unless it is an import. -/
def Event.use? (e : Event) : Option NameUse :=
  match e.reference with
  | .typeName name role => some ⟨e.place.context, .classLike, role, name⟩
  | .operand (.named name) role => some ⟨e.place.context, .classLike, role, name⟩
  | .call name _ => some ⟨e.place.context, .function, .functionCall, name⟩
  | .constant name => some ⟨e.place.context, .constant, .constantAccess, name⟩
  | _ => none

/-- The name that a landmark is. -/
def Landmark.use? (x : Context × Landmark) : Option NameUse :=
  match x.2 with
  | .name kind role word => some ⟨x.1, kind, role, word⟩
  | _ => none

theorem Event.toList_use? (e : Event) : e.use?.toList = e.landmarks.filterMap Landmark.use? := by
  obtain ⟨place, reference⟩ := e
  cases reference with
  | operand target role => cases target <;> rfl
  | member receiver member access nullsafe =>
      cases receiver with
      | object receiver =>
          simp only [Event.landmarks]
          cases ownMember? receiver member <;> rfl
      | type target => rfl
  | _ => rfl

theorem PlacedNode.filterMap_use?_typeLandmarks (x : PlacedNode) :
    x.typeLandmarks.filterMap Landmark.use? = [] := by
  obtain ⟨scope, node⟩ := x
  cases node with
  | expr e =>
      cases e with
      | methodCall receiver member args nullsafe span =>
          simp only [typeLandmarks]
          cases ownMember? receiver member <;> rfl
      | property receiver member nullsafe span =>
          simp only [typeLandmarks]
          cases ownMember? receiver member <;> rfl
      | _ => rfl
  | operand position target => cases target <;> rfl
  | _ => rfl

theorem PlacedNode.map_use_occurrences (x : PlacedNode) :
    x.occurrences.map Occurrence.use = x.landmarks.filterMap Landmark.use? := by
  rw [landmarks, List.filterMap_append, filterMap_use?_typeLandmarks, List.append_nil,
    List.filterMap_map, ← List.filterMap_eq_map]
  rfl

/-- The walk over a file meets the names of the file, each once and in the order of the text, with
what is in force there. -/
theorem use?_eventsOf (r : Resolver) (hopLimit : Nat) (ss : List Stmt) :
    (eventsOf r hopLimit ss).filterMap Event.use? = (occurrences ss).map Occurrence.use := by
  unfold occurrences
  rw [List.filterMap_eq_flatMap_toList, List.map_flatMap, funext Event.toList_use?,
    funext PlacedNode.map_use_occurrences, ← List.filterMap_flatMap, ← List.filterMap_flatMap,
    landmarks_eventsOf]

end CrossReference
