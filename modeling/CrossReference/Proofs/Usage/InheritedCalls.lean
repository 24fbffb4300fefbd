import CrossReference.Proofs.Catalog.Lookup
import CrossReference.Proofs.Declaration.Identity
import CrossReference.Proofs.Usage.Attribution
import CrossReference.Proofs.Workspace.Clauses

/-!
# Inherited methods called on `$this`

A class that does not have a method itself has the one of its parent. A call of it on `$this` is a
usage of the parent's method, provided that the catalog knows the parent: the extends clause must
have been collected under the name that the class has in its body. It is for each type that is
declared by a statement with a name. The clause of a class without a name is not collected, and its
calls are not found.

* `Catalog.findMember?_of_parent` finds the method of the parent on the class.
* `Search.exists_memberSite?_this` turns what is found into a site.
* `Search.inherited_calls_reported` is the result, and `Search.anonymous_call_not_reported` the
  exception.
-/

namespace CrossReference

open CrossReference.Tree

/-! ## From the parent to the class -/

namespace Catalog

variable {c : Catalog}

theorem keyed_findMember? (c : Catalog) (member : String) (kind : SymbolKind) :
    Keyed fun name => c.findMember? name member kind := by
  intro a b h
  have hown : c.lookup? kind (Name.member a member) = c.lookup? kind (Name.member b member) :=
    c.keyed_lookup?_member kind member a b h
  change c.findMember? a member kind = c.findMember? b member kind
  unfold findMember?
  rw [hown, c.keyed_ancestors a b h]

/-- A method comes to a type from `parent` or from nowhere: the type does not have it itself, and
neither a trait nor another type that it extends has it. All ancestors of the type are listed. -/
structure LeavesTo (c : Catalog) (type parent method : String) : Prop where
  listed : (c.ancestors type).truncated = false
  declared : c.hasType parent = true
  own : c.lookup? .method (Name.member type method) = none
  others : ∀ e ∈ c.graph.supertypes type, e.relation ≠ .implementing →
    Name.key e.parent ≠ Name.key parent → c.hasType e.parent = true →
      c.findMember? e.parent method .method = none

instance (c : Catalog) (type parent method : String) :
    Decidable (c.LeavesTo type parent method) :=
  decidable_of_iff
    ((c.ancestors type).truncated = false ∧ c.hasType parent = true ∧
      c.lookup? .method (Name.member type method) = none ∧
      ∀ e ∈ c.graph.supertypes type, e.relation ≠ .implementing →
        Name.key e.parent ≠ Name.key parent → c.hasType e.parent = true →
          c.findMember? e.parent method .method = none)
    ⟨fun h => ⟨h.1, h.2.1, h.2.2.1, h.2.2.2⟩, fun h => ⟨h.listed, h.declared, h.own, h.others⟩⟩

/-- If only one thing can be found in the first part of a list, and it is there, it is found. -/
theorem findSome?_append_of_unique {α β : Type} {f : α → Option β} {xs ys : List α} {found : β}
    (hunique : ∀ x ∈ xs, f x = none ∨ f x = some found) (hmem : ∃ x ∈ xs, f x = some found) :
    (xs ++ ys).findSome? f = some found := by
  rw [List.findSome?_append]
  cases hfirst : xs.findSome? f with
  | none =>
      obtain ⟨x, hx, hfound⟩ := hmem
      exact absurd (List.findSome?_eq_none_iff.1 hfirst x hx) (by simp [hfound])
  | some first =>
      obtain ⟨x, hx, hfound⟩ := List.exists_of_findSome?_eq_some hfirst
      rcases hunique x hx with hnone | hsome
      · exact absurd (hnone.symm.trans hfound) (by simp)
      · rw [← hsome, hfound, Option.some_or]

/-- The method that is found on the parent is found on the type. -/
theorem findMember?_of_parent (howned : c.Owned) (hc : c.graph.WellFormed)
    {type parent method : String} (h : c.LeavesTo type parent method) {e : Edge}
    (he : e ∈ c.graph.supertypes type) (hrelation : e.relation = .extending)
    (hparent : Name.key e.parent = Name.key parent) {d : Symbol}
    (hd : c.findMember? parent method .method = some d) :
    c.findMember? type method .method = some d := by
  have hsame : ∀ e : Edge, Name.key e.parent = Name.key parent →
      (if c.hasType e.parent = true then c.findMember? e.parent method .method else none) =
        some d := by
    intro e he
    rw [c.keyed_hasType _ _ he, if_pos h.declared, ← hd]
    exact c.keyed_findMember? method .method _ _ he
  -- Traits and what is extended come before the interfaces.
  have hsplit : c.graph.supertypes type =
      ((c.graph.edgesFrom (Name.key type)).filter (·.relation = .mixingIn) ++
        (c.graph.edgesFrom (Name.key type)).filter (·.relation = .extending)) ++
          (c.graph.edgesFrom (Name.key type)).filter (·.relation = .implementing) :=
    (List.append_assoc _ _ _).symm
  rw [findMember?_eq howned hc method .method h.listed, h.own, Option.none_or, parentNames,
    List.findSome?_map, hsplit]
  refine findSome?_append_of_unique ?_ ⟨e, ?_, hsame e hparent⟩
  · intro e' he'
    have hsuper : e' ∈ c.graph.supertypes type := by
      rw [hsplit]
      exact List.mem_append_left _ he'
    have hbefore : e'.relation ≠ .implementing := by
      rw [List.mem_append, List.mem_filter, List.mem_filter] at he'
      rcases he' with ⟨_, hmixed⟩ | ⟨_, hextended⟩
      · simp [of_decide_eq_true hmixed]
      · simp [of_decide_eq_true hextended]
    by_cases hkey : Name.key e'.parent = Name.key parent
    · exact .inr (hsame e' hkey)
    · refine .inl ?_
      rw [Function.comp_apply]
      split
      · rename_i htype
        exact h.others e' hsuper hbefore hkey htype
      · rfl
  · have hfrom := Graph.mem_supertypes_iff.1 he
    exact List.mem_append_right _ (List.mem_filter.2 ⟨hfrom, decide_eq_true hrelation⟩)

end Catalog

/-! ## From the class to the call -/

/-- Only an access to a member of `$this` is a landmark of this kind. -/
theorem Event.eq_of_ownMember_mem {e : Event} {ctx : Context} {this : Span} {name : Word}
    {access : MemberAccess} (h : (ctx, Landmark.ownMember this name access) ∈ e.landmarks) :
    e.place.context = ctx ∧ ∃ nullsafe,
      e.reference = .member (.object (.var "this" this)) (.ident name) access nullsafe := by
  obtain ⟨place, reference⟩ := e
  cases reference with
  | member receiver member access' nullsafe =>
      cases receiver with
      | object receiver =>
          obtain ⟨⟨this', name'⟩, hown, heq⟩ := Option.map_eq_some_iff.1 (Option.mem_toList.1 h)
          obtain ⟨rfl, hlandmark⟩ := Prod.mk.inj heq
          obtain ⟨rfl, rfl, rfl⟩ := Landmark.ownMember.inj hlandmark
          obtain ⟨rfl, rfl⟩ := eq_of_ownMember? hown
          exact ⟨rfl, nullsafe, rfl⟩
      | type target => exact absurd h List.not_mem_nil
  | operand target role => cases target <;> simp [landmarks, ClassRef.keyword?] at h
  | _ => simp [landmarks] at h

/-- The method that a node calls on `$this`. -/
def PlacedNode.ownCall? (x : PlacedNode) : Option Word :=
  match x.node with
  | .expr (.methodCall receiver member _ _ _) => (ownMember? receiver member).map Prod.snd
  | _ => none

/-- The walk meets each call of a method on `$this`, with what is in force there. -/
theorem exists_event_of_ownCall? {ss : List Stmt} {x : PlacedNode} (hx : x ∈ placedNodes ss)
    {name : Word} (hcall : x.ownCall? = some name) (r : Resolver) (hopLimit : Nat) :
    ∃ e ∈ eventsOf r hopLimit ss, e.place.context = x.scope.context ∧ ∃ this nullsafe,
      e.reference =
        .member (.object (.var "this" this)) (.ident name) .instanceMethod nullsafe := by
  obtain ⟨this, hlandmark⟩ : ∃ this,
      (x.scope.context, Landmark.ownMember this name .instanceMethod) ∈ x.landmarks := by
    unfold PlacedNode.ownCall? at hcall
    split at hcall
    · rename_i receiver member args nullsafe span hnode
      obtain ⟨⟨this, name'⟩, hown, rfl⟩ := Option.map_eq_some_iff.1 hcall
      refine ⟨this, List.mem_append_right _ ?_⟩
      unfold PlacedNode.typeLandmarks
      rw [hnode]
      simp [hown]
    · exact absurd hcall (by simp)
  have hmem := List.mem_flatMap_of_mem hx hlandmark
  rw [← landmarks_eventsOf r hopLimit ss] at hmem
  obtain ⟨e, he, hmem⟩ := List.mem_flatMap.1 hmem
  obtain ⟨hcontext, nullsafe, hreference⟩ := Event.eq_of_ownMember_mem hmem
  exact ⟨e, he, hcontext, this, nullsafe, hreference⟩

/-- A parent of a type is on record in what is collected, under the name that the type has in its
body. -/
def ClassBody.Recorded (b : ClassBody) (parent : Word) (found : Declarations) : Prop :=
  ∃ clause ∈ found.clauses, clause.child = b.typeName ∧ clause.relation = .extending ∧
    clause.parent = b.context.candidates .classLike parent.text

/-- A parent that is on record is a supertype in a snapshot, unless a clause of the file is
refused. -/
theorem Workspace.SnapshotLinked.exists_supertype_of_recorded {w : Workspace}
    (hw : w.SnapshotLinked) {id : FileId} {f : SourceFile} (hf : w.files.find? id = some f)
    (hrejected : ∀ r ∈ w.snapshot.catalog.rejected, r.file ≠ id) {b : ClassBody} {word : Word}
    (hrecorded : b.Recorded word (f.declarations id)) {parent : String}
    (hresolve : w.snapshot.catalog.resolve? (b.context.candidates .classLike word.text) =
      some parent) :
    ∃ e ∈ w.snapshot.catalog.graph.supertypes b.typeName, e.relation = .extending ∧
      Name.key e.parent = Name.key parent := by
  obtain ⟨clause, hclause, hchild, hrelation, hcandidates⟩ := hrecorded
  rw [← hcandidates] at hresolve
  have haccounted := hw.accounted _ (hw.mem_allClauses hf hclause) parent hresolve
  rcases haccounted with ⟨e, he, hedge, hkey⟩ | ⟨r, hr, hfile, _⟩
  · rw [hchild] at he
    exact ⟨e, Graph.mem_supertypes_iff.2 he, hedge.trans hrelation, hkey⟩
  · exact absurd hfile (hrejected r hr)

namespace Search

/-- A call on `$this` of the method that is searched for is a site. -/
theorem exists_memberSite?_this {s : Search} {owner method : String}
    (hquery : s.query = .member owner method .method) {type : String} {d : Symbol}
    (hfound : s.catalog.findMember? type method .method = some d)
    (hdeclaration : s.declaration = some d.key) {p : Place}
    (htype : p.context.currentType? = some type) {name : Word}
    (hname : SymbolKind.method.sameMember name.text method = true) (this : Span) (nullsafe : Bool) :
    ∃ site, s.memberSite? p (.object (.var "this" this)) (.ident name) .instanceMethod nullsafe =
        some site ∧ site.kind = .instanceMemberAccess ∧ site.span = name.span := by
  have hvalue : s.receiverValue p (.object (.var "this" this)) =
      (.object (some type) .selfRef, .resolved) := by
    simp [receiverValue, Resolver.value, htype]
  have hmatch : s.nameMatch? p method .method (.ident name) = some (name.span, none) := by
    simp [nameMatch?, hname]
  have hmember : s.memberOn? type .instanceMethod =
      some { name := method, access := .instanceMethod, declared := true } := by
    simp [memberOn?, hquery, hdeclaration, hfound]
  have htype' : (Value.object (some type) .selfRef).type = some type := rfl
  unfold memberSite?
  rw [hquery]
  simp only [if_pos (show MemberAccess.instanceMethod.symbolKind = .method from rfl), hmatch,
    hvalue, htype', hmember, Option.map_some]
  exact ⟨_, rfl, rfl, rfl⟩

/-- Calls of inherited methods on `$this` are reported. After any calls, take an indexed file none
of whose clauses is refused.

* If nothing inside a function without a name or inside a type without a declared name declares a
  type or changes the namespace, then the extends clauses of all types that are declared by a
  statement with a name are on record.
* For each type whose extends clause is on record and names a declared type `parent`, consider a
  method that comes to the type from `parent` or from nowhere. If the one that is found on `parent`
  is the one that is searched for, then each call of it on `$this`, with that type innermost around
  it, is reported at its name. -/
theorem inherited_calls_reported (settings : Settings) (calls : List Workspace.Call) (id : FileId)
    (f : SourceFile) (ss : List Stmt) :
    let w := Workspace.after settings calls
    let c := w.snapshot.catalog
    w.files.find? id = some f → f.tree = some ss → (∀ r ∈ c.rejected, r.file ≠ id) →
      (Undisturbed ss → ∀ b ∈ classBodies ss, b.isDeclared = true → ∀ word ∈ b.decl.parents,
        b.Recorded word (f.declarations id)) ∧
      ∀ (b : ClassBody) (word : Word) (parent owner method : String) (d : Symbol),
        b.Recorded word (f.declarations id) →
        c.resolve? (b.context.candidates .classLike word.text) = some parent →
        c.LeavesTo b.typeName parent method →
        c.findMember? parent method .method = some d →
        declarationOf c (.member owner method .method) = some d.key →
        ∀ x ∈ placedNodes ss, x.scope.bodies.head? = some b →
          ∀ name, x.ownCall? = some name → SymbolKind.method.sameMember name.text method = true →
            ∃ site, (x.scope.context, site) ∈
                (ofQuery c w.settings (.member owner method .method)).sites ss ∧
              site.kind = .instanceMemberAccess ∧ site.span = name.span := by
  intro w c hf htree hrejected
  have hw : w.SnapshotLinked := Workspace.snapshotLinked_after settings calls
  have hdeclarations : f.declarations id = Declarations.collect id (.ofText f.text) ss := by
    unfold SourceFile.declarations
    rw [htree]
    rfl
  refine ⟨?_, ?_⟩
  · intro hundisturbed b hb hdeclared word hword
    unfold ClassBody.Recorded
    rw [hdeclarations]
    exact exists_clause_collect hundisturbed id _ hb hdeclared hword
  · intro b word parent owner method d hrecorded hresolve hleaves hd hdeclaration x hx hbody name
      hcall hname
    obtain ⟨e, he, hrelation, hparent⟩ :=
      hw.exists_supertype_of_recorded hf hrejected hrecorded hresolve
    let s := ofQuery c w.settings (.member owner method .method)
    have hfound : s.catalog.findMember? b.typeName method .method = some d :=
      Catalog.findMember?_of_parent hw.owned hw.wellFormed hleaves he hrelation hparent hd
    obtain ⟨event, hevent, hcontext, this, nullsafe, hreference⟩ :=
      exists_event_of_ownCall? hx hcall s.resolver s.settings.hopLimit
    have htype : event.place.context.currentType? = some b.typeName := by
      rw [hcontext, currentType?_of_mem_placedNodes hx, hbody]
      rfl
    have hquery : s.query = .member owner method .method := rfl
    obtain ⟨site, hsite, hkind, hspan⟩ :=
      exists_memberSite?_this hquery hfound hdeclaration htype hname this nullsafe
    refine ⟨site, mem_sites_iff.2 ⟨event, hevent, ?_, hcontext⟩, hkind, hspan⟩
    unfold site?
    rw [hreference]
    exact hsite

/-- Three classes, one below the other, of which the first has a method and the last calls it. -/
def inheritedFile : SourceFile where
  path := "shapes.php"
  text := "namespace App; class Root \x7b function draw() \x7b\x7d \x7d " ++
    "trait Loud \x7b function shout() \x7b\x7d \x7d class Base extends Root \x7b\x7d " ++
    "class Shape extends Base \x7b use Loud; function run() \x7b $this->Draw(); \x7d \x7d"
  tree := some
    [.namespaceLine (some ⟨"App", ⟨10, 13⟩⟩),
      .classLike (.mk .classDecl (some ⟨"Root", ⟨21, 25⟩⟩) [] [] [
        .method ⟨"draw", ⟨37, 41⟩⟩ .everyone false [] none []]),
      .classLike (.mk .traitDecl (some ⟨"Loud", ⟨55, 59⟩⟩) [] [] [
        .method ⟨"shout", ⟨71, 76⟩⟩ .everyone false [] none []]),
      .classLike (.mk .classDecl (some ⟨"Base", ⟨90, 94⟩⟩) [⟨"Root", ⟨103, 107⟩⟩] [] []),
      .classLike (.mk .classDecl (some ⟨"Shape", ⟨117, 122⟩⟩) [⟨"Base", ⟨131, 135⟩⟩] [] [
        .traitUse [⟨"Loud", ⟨142, 146⟩⟩],
        .method ⟨"run", ⟨157, 160⟩⟩ .everyone false [] none [
          .expr (.methodCall (.var "this" ⟨165, 170⟩) (.ident ⟨"Draw", ⟨172, 176⟩⟩) [] false
            ⟨165, 178⟩)]])]

/-- A method is reported that is inherited over two classes and called in another spelling. -/
theorem inherited_over_two_reported :
    let w := Workspace.after {} [.setFile inheritedFile]
    let c := w.snapshot.catalog
    Undisturbed inheritedFile.stmts ∧
      (c.findMember? "App\\Base" "draw" .method).map Symbol.qualifiedName =
        some "App\\Root::draw" ∧
      ∃ ctx site, (ctx, site) ∈
          (ofQuery c w.settings (.member "App\\Root" "draw" .method)).sites inheritedFile.stmts ∧
        site.kind = .instanceMemberAccess ∧ site.span = ⟨172, 176⟩ := by
  intro w c
  have hfile : w.files.find? ⟨0⟩ = some inheritedFile := rfl
  have hundisturbed : Undisturbed inheritedFile.stmts := by decide +kernel
  obtain ⟨hrejected, hresolve, hleaves, hfound, hsome, hsame⟩ :
      (∀ r ∈ c.rejected, r.file ≠ ⟨0⟩) ∧
      c.resolve? ["App\\Base", "Base"] = some "App\\Base" ∧
      c.LeavesTo "App\\Shape" "App\\Base" "draw" ∧
      (c.findMember? "App\\Base" "draw" .method).map Symbol.qualifiedName =
        some "App\\Root::draw" ∧
      (c.findMember? "App\\Base" "draw" .method).isSome = true ∧
      declarationOf c (.member "App\\Root" "draw" .method) =
        (c.findMember? "App\\Base" "draw" .method).map Symbol.key := by
    decide +kernel
  obtain ⟨d, hd⟩ := Option.isSome_iff_exists.1 hsome
  rw [hd, Option.map_some] at hsame
  obtain ⟨x, hx, hcall, hbody⟩ : ∃ x ∈ placedNodes inheritedFile.stmts,
      x.ownCall? = some ⟨"Draw", ⟨172, 176⟩⟩ ∧
        (x.scope.bodies.head?.map fun b => (b.typeName, b.isDeclared, b.decl.parents,
          b.context.candidates .classLike "Base")) =
            some ("App\\Shape", true, [⟨"Base", ⟨131, 135⟩⟩], ["App\\Base", "Base"]) := by
    decide +kernel
  obtain ⟨b, hb, hfacts⟩ := Option.map_eq_some_iff.1 hbody
  simp only [Prod.mk.injEq] at hfacts
  obtain ⟨htype, hdeclared, hparents, hcandidates⟩ := hfacts
  rw [← hcandidates] at hresolve
  rw [← htype] at hleaves
  have hword : (⟨"Base", ⟨131, 135⟩⟩ : Word) ∈ b.decl.parents := by simp [hparents]
  have hclass := mem_classBodies_of_mem_bodies hx (List.mem_of_head? hb)
  obtain ⟨hrecorded, hreported⟩ := inherited_calls_reported {} [.setFile inheritedFile] ⟨0⟩
    inheritedFile inheritedFile.stmts hfile rfl hrejected
  obtain ⟨site, hsite, hkind, hspan⟩ := hreported b _ _ "App\\Root" "draw" d
    (hrecorded hundisturbed b hclass hdeclared _ hword) hresolve hleaves hd hsame x hx hb _ hcall
    (by decide +kernel)
  exact ⟨hundisturbed, hfound, _, site, hsite, hkind, hspan⟩

/-- A class without a name that extends a declared class and calls its method. -/
def anonymousFile : SourceFile where
  path := "anon.php"
  text := "class Base \x7b function draw() \x7b\x7d \x7d " ++
    "new class extends Base \x7b function run() \x7b $this->draw(); \x7d \x7d;"
  tree := some
    [.classLike (.mk .classDecl (some ⟨"Base", ⟨6, 10⟩⟩) [] [] [
        .method ⟨"draw", ⟨22, 26⟩⟩ .everyone false [] none []]),
      .expr (.newAnonymous (.mk .classDecl none [⟨"Base", ⟨52, 56⟩⟩] [] [
        .method ⟨"run", ⟨68, 71⟩⟩ .everyone false [] none [
          .expr (.methodCall (.var "this" ⟨76, 81⟩) (.ident ⟨"draw", ⟨83, 87⟩⟩) [] false
            ⟨76, 89⟩)]]) [] ⟨34, 94⟩)]

/-- The class without a name extends `Base`, does not have the method itself, and nothing is refused
or cut off. The method of `Base` is searched for, and the call is not reported. -/
theorem anonymous_call_not_reported :
    let w := Workspace.after {} [.setFile anonymousFile]
    let c := w.snapshot.catalog
    let s := ofQuery c w.settings (.member "Base" "draw" .method)
    (placedNodes anonymousFile.stmts).filterMap (fun x => x.ownCall?.map fun name =>
        (name, x.scope.bodies.head?.map fun b => (b.typeName, b.decl.parents))) =
      [(⟨"draw", ⟨83, 87⟩⟩, some ("class@anonymous", [⟨"Base", ⟨52, 56⟩⟩]))] ∧
    c.rejected = [] ∧ (c.ancestors "class@anonymous").truncated = false ∧
    c.hasType "Base" = true ∧
    c.lookup? .method (Name.member "class@anonymous" "draw") = none ∧
    s.declaration.isSome = true ∧
    (c.findMember? "Base" "draw" .method).map Symbol.key = s.declaration ∧
    (s.sites anonymousFile.stmts).length = 0 := by
  decide +kernel

end Search
end CrossReference
