import CrossReference.Proofs.Catalog.Members
import CrossReference.Proofs.Declaration.Collect
import CrossReference.Proofs.Scope.Decided
import CrossReference.Proofs.Tree.Nodes

/-!
# Where declarations come from

Everything that is collected from a file comes from a node of its tree and builds on nothing but the
types that were collected before it: a member has the name of such a type in front of its own, and a
clause belongs to such a type. No symbol keeps its owner as it was met; the owner is cut off the
qualified name. Where no declared name has a colon, what is cut off is the type that was met.

* `Declared.Founded` says how a declaration comes about, and `Declarations.FoundedOn` that each one
  of a list builds on those before it.
* `Declarations.Founds` is what a walk over declarations keeps, and
  `Declarations.founds_collectStmts` is the induction over the tree.
* `Declarations.child_mem_typeNames` finds the types that clauses belong to, and
  `Declared.Founded.owner_cases` the owners of symbols.
* `Declarations.collected_self_contained` is the result for files without colons in their names.
-/

namespace CrossReference

open CrossReference.Tree

/-! ## Declared names -/

namespace Tree.Node

/-- The names that a node gives: to a namespace, a type, a function, a constant, a member or a
parameter. -/
def declaredNames : Node → List String
  | stmt (.namespaceLine name) => name.toList.map Word.text
  | stmt (.namespaceBlock name _) => name.toList.map Word.text
  | stmt (.function name _ _ _) => [name.text]
  | constItem (.mk name _) => [name.text]
  | classDecl _ (.mk _ name _ _ _) => name.toList.map Word.text
  | member (.method name _ _ _ _ _) => [name.text]
  | member (.property name _ _ _ _ _) => [name.text]
  | member (.constant name _ _) => [name.text]
  | member (.enumCase name _) => [name.text]
  | param (.mk name _ _ _ _ _) => [name]
  | _ => []

/-- One of the nodes gives the name. -/
def Declares (ns : List Node) (name : String) : Prop :=
  ∃ n ∈ ns, name ∈ n.declaredNames

theorem declares_of_nodes_subset {n : Node} {ns : List Node} (h : n.nodes ⊆ ns) {name : String}
    (hname : name ∈ n.declaredNames) : Declares ns name :=
  ⟨n, h n.mem_nodes_self, hname⟩

theorem nodes_subset_of_mem_children {n : Node} {ns : List Node} (h : n.nodes ⊆ ns) :
    ∀ m ∈ n.children, m.nodes ⊆ ns :=
  fun _ hm _ hk => h (below_subset_nodes n (nodes_subset_below hm hk))

end Tree.Node

/-- No name of a namespace, a declaration or a parameter has a colon. -/
def Colonless (ss : List Stmt) : Prop :=
  ∀ n ∈ nodesOf ss, ∀ name ∈ n.declaredNames, ':' ∉ name.toList

instance (ss : List Stmt) : Decidable (Colonless ss) :=
  inferInstanceAs (Decidable (∀ n ∈ nodesOf ss, ∀ name ∈ n.declaredNames, ':' ∉ name.toList))

/-- The namespace in force, if there is one, is named by one of the nodes. -/
def Context.NamedBy (ns : List Node) (ctx : Context) : Prop :=
  ∀ outer, ctx.currentNamespace = some outer →
    ∃ name, Node.Declares ns name ∧ Name.bare name = outer

theorem Context.NamedBy.not_mem_qualify {ns : List Node} {ctx : Context} {x : Char} {name : String}
    (h : ctx.NamedBy ns) (hx : x ≠ Name.separator)
    (hnodes : ∀ outer, Node.Declares ns outer → x ∉ outer.toList) (hname : x ∉ name.toList) :
    x ∉ (ctx.qualify name).toList := by
  have hrelative : x ∉ (Name.relative name).toList :=
    fun hmem => hname ((Name.isInfix_relative name).subset hmem)
  unfold Context.qualify
  cases houter : ctx.currentNamespace with
  | none => exact hrelative
  | some outer =>
      obtain ⟨written, hwritten, rfl⟩ := h outer houter
      have hbare : x ∉ (Name.bare written).toList :=
        fun hmem => hnodes written hwritten ((Name.isInfix_bare written).subset hmem)
      simp only [Name.toList_join, List.mem_append, List.mem_cons, not_or]
      exact ⟨hbare, hx, hrelative⟩

/-! ## Owners -/

namespace Symbol

theorem owner_ofName_of_not_isMember {kind : SymbolKind} (h : kind.isMember = false)
    (qualified : String) (file : FileId) : (ofName kind qualified file).owner = none := by
  unfold ofName
  cases Text.splitLast? Name.memberMark qualified <;> simp [h]

theorem owner_ofName_member {kind : SymbolKind} {m : String} (h : kind.isMember = true)
    (hm : Name.IsUnmarked m) (owner : String) (file : FileId) :
    (ofName kind (Name.member owner m) file).owner = some owner := by
  unfold ofName
  simp [Name.splitLast?_member hm, h]

theorem owner_ofName_of_not_mem {qualified : String} (h : ':' ∉ qualified.toList)
    (kind : SymbolKind) (file : FileId) : (ofName kind qualified file).owner = none := by
  unfold ofName
  cases hsplit : Text.splitLast? Name.memberMark qualified with
  | none => rfl
  | some parts =>
      obtain ⟨rfl, -⟩ := Name.eq_member_of_splitLast? hsplit
      exact absurd (by simp [Name.toList_member, Name.memberMark]) h

/-- The symbol is a constant of a namespace, declared by one of the nodes. -/
def IsNamespaceConstant (site : Declarations.Site) (ns : List Node) (s : Symbol) : Prop :=
  ∃ (ctx : Context) (name : Word) (e : Expr), ctx.NamedBy ns ∧ .constItem (.mk name e) ∈ ns ∧
    s = site.symbol .constant (ctx.qualify name.text) name.span

end Symbol

/-! ## What a declaration builds on -/

/-- How a declaration comes about that is collected from the nodes `ns` where the types `names` are
known. -/
inductive Declared.Founded (site : Declarations.Site) (ns : List Node) (names : List String) :
    Declared → Prop
  | type (ctx : Context) (kind : ClassKind) (name : Word) (members : List Member) :
      Founded site ns names (.symbol (site.classLike ctx kind name members))
  | function (ctx : Context) (name : Word) (returns : Option TypeHint) :
      Founded site ns names (.symbol (site.function ctx name returns))
  | constant {ctx : Context} {name : Word} {e : Expr} (hctx : ctx.NamedBy ns)
      (hnode : .constItem (.mk name e) ∈ ns) :
      Founded site ns names
        (.symbol (site.symbol .constant (ctx.qualify name.text) name.span))
  | member {kind : SymbolKind} {owner m : String} (span : Span) (visibility : Option Visibility)
      (isStatic : Bool) (types : List Candidates) (hkind : kind.isMember = true)
      (howner : owner ∈ names) (hm : Node.Declares ns m) :
      Founded site ns names
        (.symbol
          { site.symbol kind (Name.member owner m) span with
            visibility := visibility
            isStatic := isStatic
            types := types })
  | clause {child : String} (ctx : Context) (relation : Relation) (parent : Word)
      (hchild : child ∈ names) :
      Founded site ns names (.clause (site.clause ctx child relation parent))

theorem Declared.Founded.mono {site : Declarations.Site} {ns : List Node}
    {names names' : List String} (hnames : names ⊆ names') {d : Declared}
    (h : d.Founded site ns names) : d.Founded site ns names' := by
  cases h with
  | type ctx kind name members => exact .type ctx kind name members
  | function ctx name returns => exact .function ctx name returns
  | constant hctx hnode => exact .constant hctx hnode
  | member span visibility isStatic types hkind howner hm =>
      exact .member span visibility isStatic types hkind (hnames howner) hm
  | clause ctx relation parent hchild => exact .clause ctx relation parent (hnames hchild)

namespace Declarations

variable {site : Site} {ns : List Node} {enclosing names : List String}

/-- Each declaration of the list builds on the types `names` and those before it in the list. -/
def FoundedOn (site : Site) (ns : List Node) : List String → List Declared → Prop
  | _, [] => True
  | names, d :: ds =>
    d.Founded site ns names ∧ FoundedOn site ns (typeNames (ofList [d]).symbols ++ names) ds

theorem FoundedOn.mono {ds : List Declared} {names' : List String} (hnames : names ⊆ names')
    (h : FoundedOn site ns names ds) : FoundedOn site ns names' ds := by
  induction ds generalizing names names' with
  | nil => trivial
  | cons d ds ih =>
      refine ⟨h.1.mono hnames, ih (List.append_subset.2 ⟨List.subset_append_left _ _, ?_⟩) h.2⟩
      exact List.subset_append_of_subset_right _ hnames

theorem FoundedOn.append {ds ds' : List Declared} (h : FoundedOn site ns names ds)
    (h' : FoundedOn site ns names ds') : FoundedOn site ns names (ds ++ ds') := by
  induction ds generalizing names with
  | nil => exact h'
  | cons d ds ih => exact ⟨h.1, ih h.2 (h'.mono (List.subset_append_right _ _))⟩

theorem foundedOn_of_forall {ds : List Declared} (h : ∀ d ∈ ds, d.Founded site ns names) :
    FoundedOn site ns names ds := by
  induction ds with
  | nil => trivial
  | cons d ds ih =>
      rw [List.forall_mem_cons] at h
      exact ⟨h.1, (ih h.2).mono (List.subset_append_right _ _)⟩

/-- A declaration inside a list builds on the types before it. -/
theorem FoundedOn.founded {before after : List Declared} {d : Declared}
    (h : FoundedOn site ns names (before ++ d :: after)) :
    d.Founded site ns (typeNames (ofList before).symbols ++ names) := by
  induction before generalizing names with
  | nil => exact h.1
  | cons first before ih =>
      refine (ih h.2).mono ?_
      intro name hname
      rw [← List.singleton_append, ofList_append, typeNames_append]
      simp only [List.mem_append] at hname ⊢
      tauto

theorem FoundedOn.founded_symbol {ds : List Declared} (h : FoundedOn site ns names ds)
    {before after : List Symbol} {s : Symbol} (hs : (ofList ds).symbols = before ++ s :: after) :
    (Declared.symbol s).Founded site ns (typeNames before ++ names) := by
  obtain ⟨first, rest, rfl, rfl, hrest⟩ := List.filterMap_eq_append_iff.1 hs
  obtain ⟨skipped, d, later, rfl, hskipped, hd, -⟩ := List.filterMap_eq_cons_iff.1 hrest
  cases d with
  | clause c => exact absurd hd (by simp [Declared.symbol?])
  | symbol t =>
      obtain rfl : t = s := Option.some.inj hd
      rw [← List.append_assoc] at h
      have hnone : (ofList skipped).symbols = [] := List.filterMap_eq_nil_iff.2 hskipped
      have hfounded := h.founded
      rwa [ofList_append, hnone, List.append_nil] at hfounded

/-! ## What a walk keeps -/

/-- From a place inside the types `enclosing` and in a namespace of the tree the walk ends at such a
place again, and what it meets builds on the types `names` and those that it meets before. -/
def Founds (site : Site) (ns : List Node) (enclosing names : List String) (w : Collector) : Prop :=
  ∀ ctx : Context, ctx.enclosing = enclosing → ctx.NamedBy ns →
    (w.run ctx).2.enclosing = enclosing ∧ (w.run ctx).2.NamedBy ns ∧
      FoundedOn site ns names (w.run ctx).1

theorem founds_skip : Founds site ns enclosing names .skip :=
  fun _ henclosing hnamed => ⟨henclosing, hnamed, trivial⟩

theorem founds_meetAll {f : Context → List Declared}
    (h : ∀ ctx, ctx.enclosing = enclosing → ctx.NamedBy ns → ∀ d ∈ f ctx, d.Founded site ns names) :
    Founds site ns enclosing names (.meetAll f) :=
  fun ctx henclosing hnamed =>
    ⟨henclosing, hnamed, foundedOn_of_forall (h ctx henclosing hnamed)⟩

theorem founds_meet {f : Context → Declared}
    (h : ∀ ctx, ctx.enclosing = enclosing → ctx.NamedBy ns → (f ctx).Founded site ns names) :
    Founds site ns enclosing names (.meet f) :=
  fun ctx henclosing hnamed => ⟨henclosing, hnamed, h ctx henclosing hnamed, trivial⟩

theorem founds_change {f : Context → Context}
    (henclosing : ∀ ctx, (f ctx).enclosing = ctx.enclosing)
    (hnamed : ∀ ctx, ctx.NamedBy ns → (f ctx).NamedBy ns) :
    Founds site ns enclosing names (.change f) :=
  fun ctx h h' => ⟨(henclosing ctx).trans h, hnamed ctx h', trivial⟩

theorem Founds.andThen {first second : Collector} (hfirst : Founds site ns enclosing names first)
    (hsecond : Founds site ns enclosing names second) :
    Founds site ns enclosing names (first.andThen second) := by
  intro ctx henclosing hnamed
  obtain ⟨hmid, hmidnamed, hmet⟩ := hfirst ctx henclosing hnamed
  obtain ⟨hend, hendnamed, hmore⟩ := hsecond _ hmid hmidnamed
  exact ⟨hend, hendnamed, hmet.append hmore⟩

theorem founds_enterNamespace {name : Option Word}
    (h : ∀ word ∈ name.toList.map Word.text, Node.Declares ns word) :
    Founds site ns enclosing names (.change (·.enterNamespace (name.map Word.text))) := by
  refine founds_change (fun _ => rfl) fun ctx _ outer houter => ?_
  obtain ⟨hbare, -⟩ := Option.filter_eq_some_iff.1 houter
  cases name with
  | none => exact absurd hbare (by simp)
  | some word => exact ⟨word.text, h word.text (by simp), by simpa using hbare⟩

theorem founds_leaveNamespace : Founds site ns enclosing names (.change (·.enterNamespace none)) :=
  founds_change (fun _ => rfl) fun _ _ _ h => absurd h (by simp [Context.enterNamespace])

theorem founds_importAll (kind : NameKind) (items : List ImportItem) :
    Founds site ns enclosing names (importAll kind items) := by
  refine founds_change (enclosing_foldl_addImport kind items) fun ctx hnamed => ?_
  induction items generalizing ctx with
  | nil => exact hnamed
  | cons item items ih => exact ih _ hnamed

/-! ## The induction over the tree -/

theorem founded_promotedIn {ctx : Context} {owner method : String} {params : List Param}
    (howner : owner ∈ names) (h : ∀ n ∈ params.map Node.param, n.nodes ⊆ ns) :
    ∀ s ∈ site.promotedIn ctx owner method params, (Declared.symbol s).Founded site ns names := by
  intro s hs
  unfold Site.promotedIn at hs
  split at hs
  · obtain ⟨⟨name, hint, doc, default, promoted, span⟩, hparam, hs⟩ := List.mem_filterMap.1 hs
    obtain ⟨visibility, -, rfl⟩ := Option.map_eq_some_iff.1 hs
    have hname : Node.Declares ns name :=
      Node.declares_of_nodes_subset (h _ (List.mem_map_of_mem hparam))
        (List.mem_singleton_self name)
    exact .member span (some visibility) _ _ rfl howner hname
  · exact absurd hs List.not_mem_nil

theorem typeNames_classLike (site : Site) (ctx : Context) (kind : ClassKind) (name : Word)
    (members : List Member) :
    typeNames [site.classLike ctx kind name members] = [ctx.qualify name.text] := by
  simp [typeNames, Site.classLike, Site.symbol, SymbolKind.isType]

mutual

theorem founds_collectStmt (site : Site) (enclosing names : List String) : (s : Stmt) →
    (Node.stmt s).nodes ⊆ ns → Founds site ns enclosing names (collectStmt site s)
  | .namespaceLine _, h => founds_enterNamespace fun _ => Node.declares_of_nodes_subset h
  | .namespaceBlock _ body, h => by
      have hbody := founds_collectStmts site enclosing names body
        (Node.nodes_subset_of_mem_children h)
      simp only [collectStmt]
      exact (founds_enterNamespace fun _ => Node.declares_of_nodes_subset h).andThen
        (hbody.andThen (founds_leaveNamespace.andThen founds_skip))
  | .imports kind items, _ => founds_importAll kind items
  | .classLike decl, h =>
      founds_collectClass site enclosing names decl
        (Node.nodes_subset_of_mem_children h _ (List.mem_singleton_self _))
  | .function name _ returns body, h => by
      have hall := List.forall_mem_append.1 (Node.nodes_subset_of_mem_children h)
      have hrest := List.forall_mem_append.1 hall.2
      have hbody := founds_collectStmts site enclosing names body hrest.2
      simp only [collectStmt]
      exact (founds_meet fun ctx _ _ => .function ctx name returns).andThen
        (hbody.andThen founds_skip)
  | .constants items, h =>
      founds_collectConstants site enclosing names items (Node.nodes_subset_of_mem_children h)
  | .branch _ thenBody elseBody, h => by
      have hall := List.forall_mem_cons.1 (Node.nodes_subset_of_mem_children h)
      have hbodies := List.forall_mem_append.1 hall.2
      have hthen := founds_collectStmts site enclosing names thenBody hbodies.1
      have helse := founds_collectStmts site enclosing names elseBody hbodies.2
      simp only [collectStmt]
      exact hthen.andThen (helse.andThen founds_skip)
  | .loop _ body, h => by
      have hall := List.forall_mem_append.1 (Node.nodes_subset_of_mem_children h)
      exact founds_collectStmts site enclosing names body hall.2
  | .forEach _ _ _ body, h => by
      have hall := List.forall_mem_cons.1 (Node.nodes_subset_of_mem_children h)
      have hkey := List.forall_mem_append.1 hall.2
      have hrest := List.forall_mem_cons.1 hkey.2
      exact founds_collectStmts site enclosing names body hrest.2
  | .attempt body catches cleanup, h => by
      have hall := List.forall_mem_append.1 (Node.nodes_subset_of_mem_children h)
      have hrest := List.forall_mem_append.1 hall.2
      have hbody := founds_collectStmts site enclosing names body hall.1
      have hcatches := founds_collectCatches site enclosing names catches hrest.1
      have hcleanup := founds_collectStmts site enclosing names cleanup hrest.2
      simp only [collectStmt]
      exact hbody.andThen (hcatches.andThen (hcleanup.andThen founds_skip))
  | .block body, h =>
      founds_collectStmts site enclosing names body (Node.nodes_subset_of_mem_children h)
  | .expr _, _ => founds_skip
  | .returned _, _ => founds_skip
  | .echo _, _ => founds_skip
  | .varDoc _ _, _ => founds_skip
  | .globals _, _ => founds_skip

theorem founds_collectStmts (site : Site) (enclosing names : List String) : (ss : List Stmt) →
    (∀ n ∈ ss.map Node.stmt, n.nodes ⊆ ns) →
    Founds site ns enclosing names (collectStmts site ss)
  | [], _ => founds_skip
  | s :: ss, h => by
      rw [List.map_cons, List.forall_mem_cons] at h
      exact (founds_collectStmt site enclosing names s h.1).andThen
        (founds_collectStmts site enclosing names ss h.2)

theorem founds_collectConstants (site : Site) (enclosing names : List String) :
    (items : List ConstItem) → (∀ n ∈ items.map Node.constItem, n.nodes ⊆ ns) →
    Founds site ns enclosing names (collectConstants site items)
  | [], _ => founds_skip
  | .mk _ _ :: items, h => by
      rw [List.map_cons, List.forall_mem_cons] at h
      exact (founds_meet fun _ _ hnamed => .constant hnamed (h.1 (Node.mem_nodes_self _))).andThen
        (founds_collectConstants site enclosing names items h.2)

theorem founds_collectCatches (site : Site) (enclosing names : List String) :
    (catches : List Catch) → (∀ n ∈ catches.map Node.catchClause, n.nodes ⊆ ns) →
    Founds site ns enclosing names (collectCatches site catches)
  | [], _ => founds_skip
  | .mk _ _ body :: catches, h => by
      rw [List.map_cons, List.forall_mem_cons] at h
      have hbody := founds_collectStmts site enclosing names body
        (Node.nodes_subset_of_mem_children h.1)
      exact hbody.andThen (founds_collectCatches site enclosing names catches h.2)

-- The members stand inside the type that was just met, so that they may belong to it.
theorem founds_collectClass (site : Site) (enclosing names : List String) : (decl : ClassDecl) →
    (Node.classDecl true decl).nodes ⊆ ns → Founds site ns enclosing names (collectClass site decl)
  | .mk _ none _ _ _, _ => founds_skip
  | .mk kind (some name) parents interfaces members, h => by
      intro ctx henclosing hnamed
      have hmembers := founds_collectMembers site (ctx.qualify name.text :: enclosing)
        (ctx.qualify name.text :: names) members (Node.nodes_subset_of_mem_children h) (by simp)
      obtain ⟨hend, hendnamed, hmet⟩ := hmembers (ctx.pushType (ctx.qualify name.text))
        (by simp [Context.pushType, henclosing]) hnamed
      have hclauses : ∀ (relation : Relation) (words : List Word),
          FoundedOn site ns (ctx.qualify name.text :: names) (words.map fun p =>
            .clause (site.clause ctx (ctx.qualify name.text) relation p)) := by
        intro relation words
        refine foundedOn_of_forall fun d hd => ?_
        obtain ⟨p, -, rfl⟩ := List.mem_map.1 hd
        exact .clause ctx relation p List.mem_cons_self
      have hbody := (hclauses .extending parents).append
        ((hclauses .implementing interfaces).append hmet)
      refine ⟨by simp [collectClass, Walk.inOrder, Walk.andThen_run, Context.popType, hend],
        hendnamed, ?_⟩
      simp only [collectClass, Walk.inOrder, Walk.andThen_run, Walk.meet_run, Walk.meetAll_run,
        Walk.change_run, Walk.skip_run, List.append_nil, List.nil_append, List.singleton_append]
      refine ⟨.type ctx kind name members, ?_⟩
      rw [show (ofList [.symbol (site.classLike ctx kind name members)]).symbols =
        [site.classLike ctx kind name members] from rfl, typeNames_classLike]
      exact hbody

theorem founds_collectMembers (site : Site) (enclosing names : List String) :
    (members : List Member) → (∀ n ∈ members.map Node.member, n.nodes ⊆ ns) →
    enclosing.head?.getD "" ∈ names → Founds site ns enclosing names (collectMembers site members)
  | [], _, _ => founds_skip
  | m :: members, h, howner => by
      rw [List.map_cons, List.forall_mem_cons] at h
      exact (founds_collectMember site enclosing names m h.1 howner).andThen
        (founds_collectMembers site enclosing names members h.2 howner)

theorem founds_collectMember (site : Site) (enclosing names : List String) : (m : Member) →
    (Node.member m).nodes ⊆ ns → enclosing.head?.getD "" ∈ names →
    Founds site ns enclosing names (collectMember site m)
  | .method name visibility isStatic params returns body, h, howner => by
      have hall := List.forall_mem_append.1 (Node.nodes_subset_of_mem_children h)
      have hrest := List.forall_mem_append.1 hall.2
      have hbody := founds_collectStmts site enclosing names body hrest.2
      have hname := Node.declares_of_nodes_subset h (List.mem_singleton_self name.text)
      simp only [collectMember]
      refine (founds_meetAll fun ctx henclosing _ d hd => ?_).andThen (hbody.andThen founds_skip)
      rw [← henclosing] at howner
      obtain ⟨s, hs, rfl⟩ := List.mem_map.1 hd
      rcases List.mem_cons.1 hs with rfl | hs
      · exact .member name.span (some visibility) isStatic _ rfl howner hname
      · exact founded_promotedIn howner hall.1 s hs
  | .property name visibility isStatic hint doc _, h, howner => by
      have hname := Node.declares_of_nodes_subset h (List.mem_singleton_self name.text)
      refine founds_meet fun ctx henclosing _ => ?_
      rw [← henclosing] at howner
      exact .member name.span (some visibility) isStatic _ rfl howner hname
  | .constant name visibility _, h, howner => by
      have hname := Node.declares_of_nodes_subset h (List.mem_singleton_self name.text)
      refine founds_meet fun ctx henclosing _ => ?_
      rw [← henclosing] at howner
      exact .member name.span (some visibility) true _ rfl howner hname
  | .enumCase name _, h, howner => by
      have hname := Node.declares_of_nodes_subset h (List.mem_singleton_self name.text)
      refine founds_meet fun ctx henclosing _ => ?_
      rw [← henclosing] at howner
      exact .member name.span (some .everyone) true _ rfl howner hname
  | .traitUse traits, _, howner => by
      refine founds_meetAll fun ctx henclosing _ d hd => ?_
      rw [← henclosing] at howner
      obtain ⟨t, -, rfl⟩ := List.mem_map.1 hd
      exact .clause ctx .mixingIn t howner

end

/-! ## Files -/

/-- All that is collected from a file comes from its nodes and builds on what comes before. -/
theorem foundedOn_collectStmts (site : Site) (ss : List Stmt) :
    FoundedOn site (nodesOf ss) [] ((collectStmts site ss).run ∅).1 := by
  have hnodes : ∀ n ∈ ss.map Node.stmt, n.nodes ⊆ nodesOf ss :=
    fun n hn _ hk => List.mem_flatMap.2 ⟨n, hn, hk⟩
  exact (founds_collectStmts site [] [] ss hnodes ∅ rfl (fun _ h => absurd h (by simp))).2.2

theorem founded_of_mem_clauses {file : FileId} {lines : Lines} {ss : List Stmt} {c : Clause}
    (h : c ∈ (collect file lines ss).clauses) :
    (Declared.clause c).Founded ⟨file, lines⟩ (nodesOf ss)
      (typeNames (collect file lines ss).symbols) := by
  have hall := foundedOn_collectStmts ⟨file, lines⟩ ss
  unfold collect at h ⊢
  obtain ⟨d, hd, hclause⟩ := List.mem_filterMap.1 h
  cases d with
  | symbol s => exact absurd hclause (by simp [Declared.clause?])
  | clause c' =>
      obtain rfl : c' = c := Option.some.inj hclause
      obtain ⟨before, after, hsplit⟩ := List.append_of_mem hd
      rw [hsplit] at hall ⊢
      refine hall.founded.mono ?_
      rw [ofList_append, typeNames_append, List.append_nil]
      exact List.subset_append_left _ _

/-- Every supertype clause of a file belongs to a type that the file declares. -/
theorem child_mem_typeNames {file : FileId} {lines : Lines} {ss : List Stmt} {c : Clause}
    (h : c ∈ (collect file lines ss).clauses) :
    c.child ∈ typeNames (collect file lines ss).symbols := by
  cases founded_of_mem_clauses h with
  | clause ctx relation parent hchild => exact hchild

theorem founded_of_symbols_eq {file : FileId} {lines : Lines} {ss : List Stmt}
    {before after : List Symbol} {s : Symbol}
    (h : (collect file lines ss).symbols = before ++ s :: after) :
    (Declared.symbol s).Founded ⟨file, lines⟩ (nodesOf ss) (typeNames before) := by
  have hfounded := (foundedOn_collectStmts ⟨file, lines⟩ ss).founded_symbol h
  rwa [List.append_nil] at hfounded

theorem founded_of_mem_symbols {file : FileId} {lines : Lines} {ss : List Stmt} {s : Symbol}
    (h : s ∈ (collect file lines ss).symbols) :
    ∃ names, (Declared.symbol s).Founded ⟨file, lines⟩ (nodesOf ss) names := by
  obtain ⟨before, after, hsplit⟩ := List.append_of_mem h
  exact ⟨_, founded_of_symbols_eq hsplit⟩

end Declarations

namespace Declared.Founded

variable {site : Declarations.Site} {ns : List Node} {names : List String} {s : Symbol}

theorem file_eq (h : (Declared.symbol s).Founded site ns names) : s.file = site.file := by
  cases h <;>
    simp [Declarations.Site.classLike, Declarations.Site.function, Declarations.Site.symbol]

/-- The owner of a symbol is the one that its qualified name spells. -/
theorem owner_eq (h : (Declared.symbol s).Founded site ns names) :
    s.owner = (Symbol.ofName s.kind s.qualifiedName s.file).owner := by
  cases h <;>
    simp [Declarations.Site.classLike, Declarations.Site.function, Declarations.Site.symbol]

/-- A symbol is a member of a type that was there before, or it is no member and has no owner. -/
theorem owner_cases (h : (Declared.symbol s).Founded site ns names)
    (hcolon : ∀ name, Node.Declares ns name → ':' ∉ name.toList) :
    (∃ owner ∈ names, s.owner = some owner) ∨
      s.owner = none ∧
        (s.kind.isType = true ∨ s.kind = .function ∨ s.IsNamespaceConstant site ns) := by
  cases h with
  | type ctx kind name members =>
      refine .inr ⟨Symbol.owner_ofName_of_not_isMember rfl _ _, .inl ?_⟩
      simp [Declarations.Site.classLike, Declarations.Site.symbol, SymbolKind.isType]
  | function ctx name returns =>
      refine .inr ⟨Symbol.owner_ofName_of_not_isMember rfl _ _, .inr (.inl ?_)⟩
      simp [Declarations.Site.function, Declarations.Site.symbol]
  | @constant ctx name e hctx hnode =>
      -- Neither the namespace nor the name has a colon, so there is nothing to cut off.
      have hname : ':' ∉ name.text.toList := hcolon _ ⟨_, hnode, List.mem_singleton_self _⟩
      have hqualified := hctx.not_mem_qualify (by decide) hcolon hname
      exact .inr ⟨Symbol.owner_ofName_of_not_mem hqualified _ _,
        .inr (.inr ⟨ctx, name, e, hctx, hnode, rfl⟩)⟩
  | @member kind owner m span visibility isStatic types hkind howner hm =>
      have hunmarked := Name.isUnmarked_of_not_mem (hcolon m hm)
      exact .inl ⟨owner, howner, Symbol.owner_ofName_member hkind hunmarked owner site.file⟩

end Declared.Founded

namespace Declarations

/-- Every symbol that is collected has the owner that its qualified name spells. -/
theorem owner_of_mem_symbols {file : FileId} {lines : Lines} {ss : List Stmt} {s : Symbol}
    (hs : s ∈ (collect file lines ss).symbols) :
    s.owner = (Symbol.ofName s.kind s.qualifiedName s.file).owner := by
  obtain ⟨names, hfounded⟩ := founded_of_mem_symbols hs
  exact hfounded.owner_eq

/-- What is collected from a file needs no other file: symbols carry the file's number, owners and
children are types of the file, an owner comes before its members, and every clause has a name to
look for. -/
theorem collected_self_contained (file : FileId) (lines : Lines) {ss : List Stmt}
    (h : Colonless ss) :
    (∀ s ∈ (collect file lines ss).symbols, s.file = file) ∧
    (∀ before s after owner, (collect file lines ss).symbols = before ++ s :: after →
      s.owner = some owner → ∃ t ∈ before, t.kind.isType = true ∧ t.qualifiedName = owner) ∧
    (∀ s ∈ (collect file lines ss).symbols, s.owner = none →
      s.kind.isType = true ∨ s.kind = .function ∨
        s.IsNamespaceConstant ⟨file, lines⟩ (nodesOf ss)) ∧
    (∀ c ∈ (collect file lines ss).clauses, c.parent ≠ [] ∧
      ∃ t ∈ (collect file lines ss).symbols, t.kind.isType = true ∧ t.qualifiedName = c.child) := by
  have hcolon : ∀ name, Node.Declares (nodesOf ss) name → ':' ∉ name.toList := by
    rintro name ⟨n, hn, hname⟩
    exact h n hn name hname
  refine ⟨fun s hs => ?_, fun before s after owner hsplit howner => ?_, fun s hs howner => ?_,
    fun c hc => ⟨?_, ?_⟩⟩
  · obtain ⟨names, hfounded⟩ := founded_of_mem_symbols hs
    exact hfounded.file_eq
  · obtain ⟨type, htype, heq⟩ | ⟨hnone, -⟩ := (founded_of_symbols_eq hsplit).owner_cases hcolon
    · obtain rfl : type = owner := Option.some.inj (heq.symm.trans howner)
      exact mem_typeNames_iff.1 htype
    · exact absurd (hnone.symm.trans howner) (by simp)
  · obtain ⟨names, hfounded⟩ := founded_of_mem_symbols hs
    obtain ⟨type, -, heq⟩ | ⟨-, hglobal⟩ := hfounded.owner_cases hcolon
    · exact absurd (heq.symm.trans howner) (by simp)
    · exact hglobal
  · cases founded_of_mem_clauses hc with
    | clause ctx relation parent hchild => exact ctx.candidates_ne_nil .classLike parent.text
  · exact mem_typeNames_iff.1 (child_mem_typeNames hc)

/-- A class with a trait, a promoted parameter, a constant and a class inside a method; then a
function in a branch, an enum in another namespace and a constant there. -/
def variedFile : List Stmt :=
  [.namespaceLine (some ⟨"App", ⟨10, 13⟩⟩),
    .classLike (.mk .classDecl (some ⟨"Shape", ⟨21, 26⟩⟩) [⟨"Base", ⟨35, 39⟩⟩]
      [⟨"Drawable", ⟨51, 59⟩⟩] [
        .traitUse [⟨"Named", ⟨66, 71⟩⟩],
        .constant ⟨"SIDES", ⟨79, 84⟩⟩ .everyone (.literal ⟨87, 88⟩),
        .method ⟨"__construct", ⟨99, 110⟩⟩ .everyone false
          [.mk "size" none none none (some .owner) ⟨119, 124⟩] none [
            .classLike (.mk .classDecl (some ⟨"Part", ⟨134, 138⟩⟩) [] [] [])]]),
    .branch (.literal ⟨150, 154⟩) [.function ⟨"helper", ⟨167, 173⟩⟩ [] none []] [],
    .namespaceBlock (some ⟨"Lib", ⟨190, 193⟩⟩) [
      .classLike (.mk .enumDecl (some ⟨"Suit", ⟨201, 205⟩⟩) [] [] [
        .enumCase ⟨"Hearts", ⟨213, 219⟩⟩ none]),
      .constants [.mk ⟨"LIMIT", ⟨229, 234⟩⟩ (.literal ⟨237, 238⟩)]]]

/-- Members and clauses of the file lead to its types, and the constant of the namespace has no
owner. -/
theorem varied_self_contained :
    let found := collect ⟨7⟩ (.ofText "") variedFile
    Colonless variedFile ∧
      found.symbols.map (fun s => (s.qualifiedName, s.owner)) =
        [("App\\Shape", none), ("App\\Shape::SIDES", some "App\\Shape"),
          ("App\\Shape::__construct", some "App\\Shape"), ("App\\Shape::size", some "App\\Shape"),
          ("App\\Part", none), ("App\\helper", none), ("Lib\\Suit", none),
          ("Lib\\Suit::Hearts", some "Lib\\Suit"), ("Lib\\LIMIT", none)] ∧
      found.clauses.map Clause.child = ["App\\Shape", "App\\Shape", "App\\Shape"] ∧
      (∀ s ∈ found.symbols, s.file = ⟨7⟩) ∧
      (∀ s ∈ found.symbols, s.owner = none → s.kind.isType = true ∨ s.kind = .function ∨
        s.IsNamespaceConstant ⟨⟨7⟩, .ofText ""⟩ (nodesOf variedFile)) ∧
      ∀ c ∈ found.clauses, c.parent ≠ [] ∧
        ∃ t ∈ found.symbols, t.kind.isType = true ∧ t.qualifiedName = c.child := by
  intro found
  have hcolon : Colonless variedFile := by decide +kernel
  obtain ⟨hfile, -, hglobal, hclauses⟩ := collected_self_contained ⟨7⟩ (.ofText "") hcolon
  exact ⟨hcolon, by decide +kernel, by decide +kernel, hfile, hglobal, hclauses⟩

end Declarations
end CrossReference
