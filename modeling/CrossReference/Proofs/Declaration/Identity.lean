import CrossReference.Proofs.Declaration.Headers
import CrossReference.Proofs.Usage.Landmarks
import CrossReference.Usage.Search

/-!
# One identity for each type

Declarations are collected by one walk and usages by another. The first does not enter expressions,
the second does, and each keeps track of the namespace on its own. Where nothing inside an
expression and nothing inside a type without a name changes the namespace or declares a type, both
give every type the same name, and they list the types in the same order.

* `sameHeads_collectStmts` compares what is collected with the heads of the declarations.
* `type_identities_agree` is the result.
-/

namespace CrossReference

open CrossReference.Tree

/-! ## Undisturbed files -/

namespace Tree.Node

/-- A namespace, an import or the declaration of a type, as a statement. -/
def isScopeStatement : Node → Bool
  | stmt (.namespaceLine _) => true
  | stmt (.namespaceBlock _ _) => true
  | stmt (.imports _ _) => true
  | classDecl true _ => true
  | _ => false

theorem isScopeStatement_of_isExpression (n : Node) (hn : n.isExpression = true) :
    n.isScopeStatement = false := by
  cases n with
  | stmt s => exact absurd hn (by simp [isExpression])
  | classDecl isStatement decl =>
      cases isStatement with
      | false => rfl
      | true => exact absurd hn (by simp [isExpression])
  | _ => rfl

end Tree.Node

/-- Nothing inside a function without a name, or inside a type without a declared name, declares a
type or changes the namespace. -/
def Undisturbed (ss : List Stmt) : Prop :=
  ∀ n ∈ ss.map Node.stmt, n.Spares Node.isScopeStatement

instance (ss : List Stmt) : Decidable (Undisturbed ss) :=
  inferInstanceAs (Decidable (∀ n ∈ ss.map Node.stmt, n.Spares Node.isScopeStatement))

/-! ## The heads of declarations -/

namespace Header

/-- A clause of a member is no part of the head of a declaration. -/
def isHead : Header → Bool
  | type _ => true
  | clause c => c.relation ≠ .mixingIn

/-- The name of a type. -/
def typeName? : Header → Option String
  | type name => some name
  | clause _ => none

/-- The same heads in the same order. -/
def SameHeads (hs hs' : List Header) : Prop :=
  hs.filter isHead = hs'.filter isHead

instance : Walk.Compares SameHeads where
  refl := fun _ => rfl
  append := by
    intro hs hs' ks ks' h h'
    unfold SameHeads
    rw [List.filter_append, List.filter_append, h, h']

theorem SameHeads.filterMap_typeName? {hs hs' : List Header} (h : SameHeads hs hs') :
    hs.filterMap typeName? = hs'.filterMap typeName? := by
  have hkept : ∀ hs : List Header, (hs.filter isHead).filterMap typeName? =
      hs.filterMap typeName? := by
    intro hs
    rw [List.filterMap_filter]
    congr 1
    funext x
    cases x with
    | type name => rfl
    | clause c => exact ite_self none
  rw [← hkept hs, ← hkept hs', h]

end Header

/-- A node that neither declares a type nor changes the namespace. -/
theorem quiet_node {n : Node} (hn : n.isScopeStatement = true → n.isEnclave = true)
    (site : Declarations.Site) (s : Scope) :
    n.changesNames = false ∧ ((PlacedNode.mk s n).headers site).filter Header.isHead = [] := by
  cases n with
  | stmt stmt => cases stmt <;> first | exact ⟨rfl, rfl⟩ | exact absurd (hn rfl) Bool.false_ne_true
  | classDecl isStatement decl =>
      refine ⟨rfl, ?_⟩
      obtain ⟨kind, name, parents, interfaces, members⟩ := decl
      cases isStatement with
      | false => rfl
      | true =>
          cases name with
          | none => rfl
          | some name => exact absurd (hn rfl) Bool.false_ne_true
  | member m =>
      refine ⟨rfl, ?_⟩
      cases m with
      | traitUse traits =>
          simp [PlacedNode.headers, Declarations.Site.headers, Header.isHead,
            Declarations.Site.clause]
      | _ => rfl
  | _ => exact ⟨rfl, rfl⟩

/-- What neither declares a type nor changes the namespace can be left out. -/
theorem Declarations.passesOver_sameHeads (site : Site) :
    PassesOver Header.SameHeads Node.isScopeStatement site where
  expression := Node.isScopeStatement_of_isExpression
  skip := by
    intro ns h t ctx htc
    constructor
    · have hnone : (((Node.visitAll ns).run t).1.flatMap (PlacedNode.headers site)).filter
          Header.isHead = [] := by
        rw [List.filter_flatMap, List.flatMap_eq_nil_iff]
        refine fun x hx => (quiet_node (h x.node ?_) site x.scope).2
        rw [← Node.map_node_visitAll ns t]
        exact List.mem_map_of_mem hx
      exact hnone.symm
    · rw [Node.context_visitAll fun k hk => (quiet_node (h k hk) site {}).1]
      exact htc

/-- What the heads of the declared types tell, in the order of the text, is what is collected of
them. -/
theorem sameHeads_collectStmts {ss : List Stmt} (h : Undisturbed ss) (site : Declarations.Site) :
    Header.SameHeads (((Declarations.collectStmts site ss).run ∅).1.flatMap Declared.headers)
      ((placedNodes ss).flatMap (PlacedNode.headers site)) :=
  (Declarations.passesOver_sameHeads site).collectStmts h

theorem Declarations.Site.filterMap_headers (site : Site) (ctx : Context) (child : String)
    (relation : Relation) (parents : List Word) :
    (site.headers ctx child relation parents).filterMap Header.typeName? = [] := by
  rw [headers, List.filterMap_map, List.filterMap_eq_nil_iff]
  exact fun _ _ => rfl

theorem PlacedNode.filterMap_headers (site : Declarations.Site) (x : PlacedNode) :
    (x.headers site).filterMap Header.typeName? =
      ((x.classBody?.filter ClassBody.isDeclared).map ClassBody.typeName).toList := by
  obtain ⟨scope, node⟩ := x
  cases node with
  | classDecl isStatement decl =>
      simp only [headers, classBody?, ClassBody.headers, Option.filter_some]
      split
      · simp only [List.filterMap_cons, Header.typeName?, List.filterMap_append,
          site.filterMap_headers]
        rfl
      · rfl
  | member m =>
      cases m with
      | traitUse traits => exact site.filterMap_headers ..
      | _ => rfl
  | _ => rfl

theorem Declared.filterMap_headers (d : Declared) : d.headers.filterMap Header.typeName? =
    ((d.symbol?.filter (·.kind.isType)).map Symbol.qualifiedName).toList := by
  cases d with
  | symbol s =>
      cases htype : s.kind.isType <;>
        simp [headers, symbol?, Header.typeName?, Option.filter_some, htype]
  | clause c => rfl

/-- The types that are collected are the declared ones. -/
theorem typeNames_collect {ss : List Stmt} (h : Undisturbed ss) (file : FileId) (lines : Lines) :
    ((classBodies ss).filter ClassBody.isDeclared).map ClassBody.typeName =
      Declarations.typeNames (Declarations.collect file lines ss).symbols := by
  have hnames := (sameHeads_collectStmts h ⟨file, lines⟩).filterMap_typeName?
  rw [List.filterMap_flatMap, List.filterMap_flatMap, funext Declared.filterMap_headers,
    funext (PlacedNode.filterMap_headers _), ← List.filterMap_eq_flatMap_toList,
    ← List.filterMap_eq_flatMap_toList] at hnames
  unfold classBodies Declarations.typeNames Declarations.collect Declarations.ofList
  rw [List.filter_filterMap, List.map_filterMap, List.filter_filterMap, List.map_filterMap]
  exact hnames.symm

/-- The clauses of the declared types are collected. -/
theorem exists_clause_collect {ss : List Stmt} (h : Undisturbed ss) (file : FileId) (lines : Lines)
    {b : ClassBody} (hb : b ∈ classBodies ss) (hdeclared : b.isDeclared = true) {parent : Word}
    (hparent : parent ∈ b.decl.parents) :
    ∃ c ∈ (Declarations.collect file lines ss).clauses, c.child = b.typeName ∧
      c.relation = .extending ∧ c.parent = b.context.candidates .classLike parent.text := by
  let site : Declarations.Site := ⟨file, lines⟩
  let c : Clause := site.clause b.context b.typeName .extending parent
  have hheader : Header.clause c ∈ b.headers site := by
    unfold ClassBody.headers
    rw [if_pos hdeclared]
    exact List.mem_cons_of_mem _ (List.mem_append_left _ (List.mem_map_of_mem hparent))
  obtain ⟨x, hx, hbody⟩ := List.mem_filterMap.1 hb
  rw [← PlacedNode.headers_of_classBody? hbody] at hheader
  have hhead : Header.clause c ∈
      ((placedNodes ss).flatMap (PlacedNode.headers site)).filter Header.isHead :=
    List.mem_filter.2 ⟨List.mem_flatMap_of_mem hx hheader, rfl⟩
  rw [← sameHeads_collectStmts h site] at hhead
  obtain ⟨d, hd, hmem⟩ := List.mem_flatMap.1 (List.mem_filter.1 hhead).1
  obtain rfl := Declared.eq_of_clause_mem_headers hmem
  exact ⟨c, List.mem_filterMap.2 ⟨_, hd, rfl⟩, rfl, rfl, rfl⟩

/-! ## The identities of types -/

/-- The type whose body starts. -/
def Event.openedType? (e : Event) : Option String :=
  match e.reference with
  | .typeBody => e.place.context.currentType?
  | _ => none

/-- Where `self`, `static` or `$this` stands, and the type that it is taken for. -/
def Event.selfReference? (r : Resolver) (e : Event) : Option (Span × Option String) :=
  match e.reference with
  | .operand target _ =>
    if target.isSelf then some (Search.operandSpan target, (r.classValue e.place target).1.type)
    else none
  | .member (.object receiver) member _ _ =>
    (ownMember? receiver member).map fun (this, _) => (this, (r.value e.place receiver).type)
  | _ => none

/-- Where `self`, `static` or `$this` stands, and the type whose declaration is around it. -/
def PlacedNode.selfReference? (x : PlacedNode) : Option (Span × Option String) :=
  let type := x.scope.bodies.head?.map ClassBody.typeName
  match x.node with
  | .operand _ target => if target.isSelf then some (Search.operandSpan target, type) else none
  | .expr (.methodCall receiver member _ _ _) =>
    (ownMember? receiver member).map fun (this, _) => (this, type)
  | .expr (.property receiver member _ _) =>
    (ownMember? receiver member).map fun (this, _) => (this, type)
  | _ => none

/-- The walk opens the types of the file, in the order of the text. -/
theorem openedType?_eventsOf (r : Resolver) (hopLimit : Nat) (ss : List Stmt) :
    (eventsOf r hopLimit ss).filterMap Event.openedType? =
      (classBodies ss).map ClassBody.typeName := by
  let read : Context × Landmark → Option String := fun x =>
    match x.2 with
    | .typeBody => x.1.currentType?
    | _ => none
  have hevent : ∀ e : Event, e.openedType?.toList = e.landmarks.filterMap read := by
    rintro ⟨place, reference⟩
    cases reference with
    | operand target role => cases target <;> rfl
    | member receiver member access nullsafe =>
        cases receiver with
        | object receiver =>
            simp only [Event.landmarks]
            cases ownMember? receiver member <;> rfl
        | type target => rfl
    | typeBody =>
        simp only [Event.landmarks, Event.openedType?, List.filterMap_cons, read]
        cases place.context.currentType? <;> rfl
    | _ => rfl
  have hnode : ∀ x : PlacedNode,
      (x.classBody?.map ClassBody.typeName).toList = x.landmarks.filterMap read := by
    intro x
    rw [PlacedNode.filterMap_landmarks fun _ _ _ _ => rfl]
    obtain ⟨scope, node⟩ := x
    cases node with
    | expr e =>
        cases e with
        | methodCall receiver member args nullsafe span =>
            simp only [PlacedNode.typeLandmarks]
            cases ownMember? receiver member <;> rfl
        | property receiver member nullsafe span =>
            simp only [PlacedNode.typeLandmarks]
            cases ownMember? receiver member <;> rfl
        | _ => rfl
    | operand position target => cases target <;> rfl
    | _ => rfl
  unfold classBodies
  rw [List.map_filterMap]
  exact filterMap_eventsOf read hevent (fun x _ => hnode x) r hopLimit

/-- `self`, `static` and `$this` are taken for the innermost type around them. -/
theorem selfReference?_eventsOf (r : Resolver) (hopLimit : Nat) (ss : List Stmt) :
    (eventsOf r hopLimit ss).filterMap (Event.selfReference? r) =
      (placedNodes ss).filterMap PlacedNode.selfReference? := by
  let read : Context × Landmark → Option (Span × Option String) := fun x =>
    match x.2 with
    | .keyword target => some (Search.operandSpan target, x.1.currentType?)
    | .ownMember this _ _ => some (this, x.1.currentType?)
    | _ => none
  have hobject : ∀ (type : Option String) (origin : Origin),
      (Value.object type origin).type = type := by
    intro type origin
    cases type <;> rfl
  have hevent : ∀ e : Event, (e.selfReference? r).toList = e.landmarks.filterMap read := by
    rintro ⟨place, reference⟩
    cases reference with
    | operand target role =>
        cases target with
        | selfType span => exact congrArg (fun type => [(span, type)]) (hobject _ _)
        | staticType span => exact congrArg (fun type => [(span, type)]) (hobject _ _)
        | _ => rfl
    | member receiver member access nullsafe =>
        cases receiver with
        | object receiver =>
            simp only [Event.landmarks, Event.selfReference?]
            cases hown : ownMember? receiver member with
            | none => rfl
            | some found =>
                obtain ⟨rfl, rfl⟩ := eq_of_ownMember? hown
                exact congrArg (fun type => [(found.1, type)]) (hobject _ _)
        | type target => rfl
    | _ => rfl
  have hnode : ∀ x ∈ placedNodes ss, x.selfReference?.toList = x.landmarks.filterMap read := by
    intro x hx
    have htype := currentType?_of_mem_placedNodes hx
    rw [PlacedNode.filterMap_landmarks fun _ _ _ _ => rfl]
    obtain ⟨scope, node⟩ := x
    cases node with
    | expr e =>
        cases e with
        | methodCall receiver member args nullsafe span =>
            simp only [PlacedNode.typeLandmarks, PlacedNode.selfReference?, ← htype]
            cases ownMember? receiver member <;> rfl
        | property receiver member nullsafe span =>
            simp only [PlacedNode.typeLandmarks, PlacedNode.selfReference?, ← htype]
            cases ownMember? receiver member <;> rfl
        | _ => rfl
    | operand position target =>
        simp only [PlacedNode.typeLandmarks, PlacedNode.selfReference?, ← htype]
        cases target <;> rfl
    | _ => rfl
  exact filterMap_eventsOf read hevent hnode r hopLimit

/-- Both walks give every type one identity. Where nothing inside a function without a name or
inside a type without a declared name declares a type or changes the namespace:

* the walk over a file opens its types by their names, in the order of the text;
* of these, the ones that are declared by a statement with a name are the types that are collected,
  under the same names and in the same order;
* `self`, `static` and `$this` are taken for the innermost type around them, and if that type is so
  declared, it is one of the collected types. -/
theorem type_identities_agree (ss : List Stmt) (h : Undisturbed ss) (r : Resolver) (hopLimit : Nat)
    (file : FileId) (lines : Lines) :
    let events := eventsOf r hopLimit ss
    let types := Declarations.typeNames (Declarations.collect file lines ss).symbols
    events.filterMap Event.openedType? = (classBodies ss).map ClassBody.typeName ∧
      ((classBodies ss).filter ClassBody.isDeclared).map ClassBody.typeName = types ∧
      events.filterMap (Event.selfReference? r) =
        (placedNodes ss).filterMap PlacedNode.selfReference? ∧
      ∀ x ∈ placedNodes ss, ∀ b ∈ x.scope.bodies, b.isDeclared = true → b.typeName ∈ types := by
  intro events types
  have htypes : ((classBodies ss).filter ClassBody.isDeclared).map ClassBody.typeName = types :=
    typeNames_collect h file lines
  refine ⟨openedType?_eventsOf r hopLimit ss, htypes, selfReference?_eventsOf r hopLimit ss, ?_⟩
  intro x hx b hb hdeclared
  have hbody : b ∈ (classBodies ss).filter ClassBody.isDeclared :=
    List.mem_filter.2 ⟨mem_classBodies_of_mem_bodies hx hb, hdeclared⟩
  rw [← htypes]
  exact List.mem_map_of_mem hbody

/-- A namespace with a class that declares another one in a method, and returns there a function
that makes an object of a class without a name; then a class in a branch. -/
def layeredFile : List Stmt :=
  [.namespaceLine (some ⟨"App", ⟨10, 13⟩⟩),
    .classLike (.mk .classDecl (some ⟨"Shape", ⟨21, 26⟩⟩) [] [] [
      .method ⟨"make", ⟨38, 42⟩⟩ .everyone false [] none [
        .classLike (.mk .classDecl (some ⟨"Part", ⟨53, 57⟩⟩) [] [] [
          .method ⟨"copy", ⟨69, 73⟩⟩ .everyone false [] none [
            .returned (some (.new (.selfType ⟨89, 93⟩) [] ⟨85, 93⟩))]]),
        .returned (some (.closure [] [] none [
          .expr (.newAnonymous (.mk .classDecl none [] [] [
            .method ⟨"run", ⟨143, 146⟩⟩ .everyone false [] none [
              .expr (.methodCall (.var "this" ⟨151, 156⟩) (.ident ⟨"stop", ⟨158, 162⟩⟩) [] false
                ⟨151, 164⟩)]]) [] ⟨124, 168⟩)] ⟨109, 171⟩))]]),
    .branch (.literal ⟨180, 184⟩) [.classLike (.mk .classDecl (some ⟨"Late", ⟨194, 198⟩⟩) [] [] [])]
      []]

/-- The class without a name is opened but not collected; the others are both. -/
theorem layered_identities_agree :
    let r := (Search.ofQuery ∅ {} (.type "App\\Shape")).resolver
    Undisturbed layeredFile ∧
      Declarations.typeNames (Declarations.collect ⟨0⟩ (.ofText "") layeredFile).symbols =
        ["App\\Shape", "App\\Part", "App\\Late"] ∧
      (eventsOf r 3 layeredFile).filterMap Event.openedType? =
        ["App\\Shape", "App\\Part", "class@anonymous", "App\\Late"] ∧
      (eventsOf r 3 layeredFile).filterMap (Event.selfReference? r) =
        [(⟨89, 93⟩, some "App\\Part"), (⟨151, 156⟩, some "class@anonymous")] := by
  intro r
  have hlayered : Undisturbed layeredFile := by decide +kernel
  obtain ⟨hopened, htypes, hself, _⟩ :=
    type_identities_agree layeredFile hlayered r 3 ⟨0⟩ (.ofText "")
  refine ⟨hlayered, ?_, ?_, ?_⟩
  · rw [← htypes]
    decide +kernel
  · rw [hopened]
    decide +kernel
  · rw [hself]
    decide +kernel

end CrossReference
