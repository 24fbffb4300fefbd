import CrossReference.Proofs.Usage.ClassNames
import CrossReference.Proofs.Usage.Landmarks

/-!
# Functions and constants are reported

Functions and constants are named without a class: a function where it is called by its name, and a
constant wherever it stands. A search for a constant reports each name that denotes it, and nothing
else as an access. A search for a function does the same for calls, but for those that are spelled
like a function whose arguments name functions and members: there only the arguments are looked at,
even where the name denotes another function.

* `freeNames_eq` finds the names that the walk meets among the nodes of the file.
* `Search.reportedAs_eq` reads the sites of one kind off the names.
* `Search.constants_reported_exactly` and `Search.calls_reported_unless_indirect` are the results.
-/

namespace CrossReference

open CrossReference.Tree

/-- The function that a node calls by its name, or the constant that it is. -/
def Tree.Node.freeName? : NameKind → Node → Option Word
  | .function, .expr (.call (.named name) _ _) => some name
  | .constant, .expr (.constant name) => some name
  | _, _ => none

/-- The functions that are called, or the constants, with what is in force at each. -/
def freeNames (kind : NameKind) (ss : List Stmt) : List (Context × Word) :=
  (placedNodes ss).filterMap fun x =>
    (x.node.freeName? kind).map fun name => (x.scope.context, name)

/-- Each node is listed once. -/
theorem map_snd_freeNames (kind : NameKind) (ss : List Stmt) :
    (freeNames kind ss).map Prod.snd = (nodesOf ss).filterMap (Node.freeName? kind) := by
  unfold freeNames
  rw [List.map_filterMap, ← map_node_placedNodes, List.filterMap_map]
  congr 1
  funext x
  simp [Function.comp_def]

/-- The function that is called by its name, or the constant that is met, with what is in force
there. -/
def Event.freeName? (kind : NameKind) (e : Event) : Option (Context × Word) :=
  match kind, e.reference with
  | .function, .call name _ => some (e.place.context, name)
  | .constant, .constant name => some (e.place.context, name)
  | _, _ => none

/-- The name, if it is one of a function or a constant. -/
def NameUse.freeName? (kind : NameKind) (u : NameUse) : Option (Context × Word) :=
  if kind ≠ .classLike ∧ u.kind = kind then some (u.context, u.name) else none

theorem Event.freeName?_eq (kind : NameKind) (e : Event) :
    e.freeName? kind = e.use?.bind (NameUse.freeName? kind) := by
  obtain ⟨place, reference⟩ := e
  cases reference with
  | operand target role => cases kind <;> cases target <;> rfl
  | _ => cases kind <;> rfl

namespace PlacedNode

/-- Where only classes are named, there is no function and no constant. -/
theorem filterMap_freeName?_of_classLike {x : PlacedNode}
    (h : ∀ o ∈ x.occurrences, o.position.kind = .classLike) (kind : NameKind) :
    (x.occurrences.map Occurrence.use).filterMap (NameUse.freeName? kind) = [] := by
  rw [List.filterMap_map, List.filterMap_eq_nil_iff]
  intro o ho
  refine if_neg fun hfree => hfree.1 ?_
  rw [← hfree.2]
  exact h o ho

theorem toList_freeName? (kind : NameKind) (x : PlacedNode) :
    ((x.node.freeName? kind).map fun name => (x.scope.context, name)).toList =
      (x.occurrences.map Occurrence.use).filterMap (NameUse.freeName? kind) := by
  obtain ⟨scope, node⟩ := x
  cases node with
  | expr e =>
      cases e with
      | call callee args span => cases callee <;> cases kind <;> rfl
      | _ => cases kind <;> rfl
  | _ =>
      rw [filterMap_freeName?_of_classLike ?_ kind]
      · cases kind <;> rfl
      · intro o ho
        unfold occurrences at ho
        grind [named, NamePosition.kind, NamePosition.kind_ofOperand]

end PlacedNode

/-- The names that the walk meets are those of the nodes. -/
theorem freeNames_eq (kind : NameKind) (r : Resolver) (hopLimit : Nat) (ss : List Stmt) :
    (eventsOf r hopLimit ss).filterMap (Event.freeName? kind) = freeNames kind ss := by
  unfold freeNames
  rw [funext (Event.freeName?_eq kind), ← List.filterMap_filterMap, use?_eventsOf, occurrences,
    List.map_flatMap, List.filterMap_flatMap, List.filterMap_eq_flatMap_toList]
  exact congrArg (fun f => (placedNodes ss).flatMap f)
    (funext fun x => (x.toList_freeName? kind).symm)

namespace Search

/-- The sites of one kind, with what is in force there, in the order of the walk. -/
def reportedAs (s : Search) (kind : UsageKind) (ss : List Stmt) : List (Context × Span) :=
  ((s.sites ss).filter (·.2.kind = kind)).map fun x => (x.1, x.2.span)

section Kinds

variable {s : Search} {site : Site}

theorem kind_of_reflectedMember? {type : Option String} {name : String} {access : MemberAccess}
    {span : Span} (h : s.reflectedMember? type name access span = some site) :
    site.kind = .dynamicCall := by
  unfold reflectedMember? at h
  split at h
  · obtain ⟨_, h⟩ := Option.ite_none_right_eq_some.1 h
    obtain ⟨_, _, rfl⟩ := Option.map_eq_some_iff.1 h
    rfl
  · exact absurd h (by simp)

theorem kind_of_mediatedMember? {type name : String} {origin : Origin} {span : Span}
    (h : s.mediatedMember? type name origin span = some site) : site.kind = .dynamicCall := by
  unfold mediatedMember? at h
  split at h
  · obtain ⟨_, h⟩ := Option.ite_none_right_eq_some.1 h
    obtain ⟨_, _, rfl⟩ := Option.map_eq_some_iff.1 h
    rfl
  · exact absurd h (by simp)

theorem kind_of_callableSite? {v : Value} {span : Span} {reflective : Bool}
    (h : s.callableSite? v span reflective = some site) : site.kind = .dynamicCall := by
  unfold callableSite? at h
  split at h
  · exact absurd h (by simp)
  · split at h
    · split at h
      · exact kind_of_reflectedMember? h
      · exact kind_of_mediatedMember? h
    · split at h
      · obtain ⟨_, h⟩ := Option.ite_none_right_eq_some.1 h
        rw [← Option.some.inj h]
      · exact absurd h (by simp)

theorem kind_of_reflectedConstant? {text : String} {span : Span}
    (h : s.reflectedConstant? text span = some site) : site.kind = .dynamicCall := by
  unfold reflectedConstant? at h
  split at h
  · exact kind_of_reflectedMember? h
  · split at h
    · obtain ⟨_, h⟩ := Option.ite_none_right_eq_some.1 h
      rw [← Option.some.inj h]
    · exact absurd h (by simp)

theorem kind_of_indirectSite? {p : Place} {name : Word} {args : List Expr}
    (h : s.indirectSite? p name args = some site) : site.kind = .dynamicCall := by
  unfold indirectSite? at h
  simp only at h
  split at h
  · exact absurd h (by simp)
  · split at h
    · exact absurd h (by simp)
    · split at h
      · exact kind_of_reflectedMember? h
      · split at h
        · exact kind_of_reflectedConstant? h
        · exact kind_of_callableSite? h

end Kinds

/-- The search is for a function or a constant. -/
def IsFree (s : Search) : Prop :=
  (∃ subject, s.query = .function subject) ∨ ∃ subject, s.query = .constant subject

/-- In such a search, nodes that name neither a function nor a constant are at most imports and
indirect calls. -/
theorem kind_of_site?_of_unnamed {s : Search} (hs : s.IsFree) {e : Event}
    (hname : ∀ kind, e.freeName? kind = none) {site : Site} (h : s.site? e = some site) :
    site.kind = .importClause ∨ site.kind = .dynamicCall := by
  have htype : ∀ ctx name role, s.typeNameSite? ctx name role = none := by
    intro ctx name role
    rcases hs with ⟨_, hquery⟩ | ⟨_, hquery⟩ <;> simp [typeNameSite?, hquery]
  obtain ⟨place, reference⟩ := e
  cases reference with
  | imported kind name => exact .inl (kind_of_importSite? h)
  | typeName name role => exact absurd h (by simp [site?, htype])
  | operand target role =>
      have hnone := operandSite?_eq_none (s := s)
        (by rcases hs with ⟨_, hquery⟩ | ⟨_, hquery⟩ <;> simp [hquery]) place role target
      exact absurd h (by simp [site?, hnone])
  | construction target =>
      refine absurd h ?_
      rcases hs with ⟨_, hquery⟩ | ⟨_, hquery⟩ <;>
        simp [site?, constructionSite?, hquery, Query.isConstructor]
  | call name args => exact absurd (hname .function) (by simp [Event.freeName?])
  | callValue callee => exact .inr (kind_of_callableSite? h)
  | member receiver name access nullsafe =>
      refine absurd h ?_
      rcases hs with ⟨_, hquery⟩ | ⟨_, hquery⟩ <;> simp [site?, memberSite?, hquery]
  | constant name => exact absurd (hname .constant) (by simp [Event.freeName?])
  | typeBody => exact absurd h (by simp [site?])

/-- The sites of the kind `role` are the names of one kind that are wanted, if this is so for each
node. -/
theorem reportedAs_eq {s : Search} {kind : NameKind} {role : UsageKind}
    {wanted : Context × Word → Bool}
    (hnode : ∀ e, ((s.site? e).filter (·.kind = role)).map
      (fun site => (e.place.context, site.span)) =
        ((e.freeName? kind).filter wanted).map fun x => (x.1, x.2.span)) (ss : List Stmt) :
    s.reportedAs role ss = ((freeNames kind ss).filter wanted).map fun x => (x.1, x.2.span) := by
  calc s.reportedAs role ss
      = (eventsOf s.resolver s.settings.hopLimit ss).filterMap fun e =>
          ((s.site? e).filter (·.kind = role)).map fun site => (e.place.context, site.span) := by
        unfold reportedAs sites
        rw [List.filter_filterMap, List.map_filterMap]
        simp only [Option.filter_map, Option.map_map]
        rfl
    _ = (((eventsOf s.resolver s.settings.hopLimit ss).filterMap (Event.freeName? kind)).filter
          wanted).map fun x => (x.1, x.2.span) := by
        rw [funext hnode, List.filter_filterMap, List.map_filterMap]
    _ = _ := by rw [freeNames_eq]

/-- A node that names neither a function nor a constant is no call and no access. -/
theorem filter_site?_of_unnamed {s : Search} (hs : s.IsFree) {e : Event}
    (hname : ∀ kind, e.freeName? kind = none) {role : UsageKind}
    (hrole : role ≠ .importClause ∧ role ≠ .dynamicCall) :
    (s.site? e).filter (·.kind = role) = none := by
  rw [Option.filter_eq_none_iff]
  intro site hsite
  rcases kind_of_site?_of_unnamed hs hname hsite with himport | hdynamic
  · simpa [himport] using hrole.1.symm
  · simpa [hdynamic] using hrole.2.symm

/-- In a search for a constant, a node is an access just when it is a constant that denotes the one
that is searched for. -/
theorem constantAccess_site? {s : Search} {subject : String} (hquery : s.query = .constant subject)
    (e : Event) :
    ((s.site? e).filter (·.kind = .constantAccess)).map
        (fun site => (e.place.context, site.span)) =
      ((e.freeName? .constant).filter fun x =>
        (s.resolver.resolve x.1 .constant x.2.text).denotes subject .constant).map
          fun x => (x.1, x.2.span) := by
  obtain ⟨place, reference⟩ := e
  cases reference with
  | call name args =>
      have hnone : (s.site? ⟨place, .call name args⟩).filter (·.kind = .constantAccess) = none := by
        rw [Option.filter_eq_none_iff]
        intro site hsite
        unfold site? at hsite
        simp only at hsite
        split at hsite
        · simp [kind_of_indirectSite? hsite]
        · exact absurd hsite (by simp [functionSite?, hquery])
      rw [hnone]
      rfl
  | constant name =>
      simp only [site?, constantSite?, hquery, Event.freeName?, Option.filter_some]
      split <;> rfl
  | _ =>
      rw [filter_site?_of_unnamed (.inr ⟨subject, hquery⟩) (fun kind => by cases kind <;> rfl)
        (by decide)]
      rfl

/-- In a search for a function, a node is a call just when it calls, by a name that is not spelled
like an indirect call, the function that is searched for. -/
theorem functionCall_site? {s : Search} {subject : String} (hquery : s.query = .function subject)
    (e : Event) :
    ((s.site? e).filter (·.kind = .functionCall)).map
        (fun site => (e.place.context, site.span)) =
      ((e.freeName? .function).filter fun x =>
        !s.settings.isIndirectCall x.2.text &&
          (s.resolver.resolve x.1 .function x.2.text).denotes subject .function).map
            fun x => (x.1, x.2.span) := by
  obtain ⟨place, reference⟩ := e
  cases reference with
  | call name args =>
      cases hindirect : s.settings.isIndirectCall name.text with
      | true =>
          have hnone : (s.site? ⟨place, .call name args⟩).filter (·.kind = .functionCall) =
              none := by
            rw [Option.filter_eq_none_iff]
            intro site hsite
            have hsite : s.indirectSite? place name args = some site := by
              simpa [site?, hindirect] using hsite
            simp [kind_of_indirectSite? hsite]
          simp only [hnone, Event.freeName?, Option.filter_some, hindirect, Bool.not_true,
            Bool.false_and, Bool.false_eq_true, if_false, Option.map_none]
      | false =>
          simp only [site?, functionSite?, hquery, hindirect, Event.freeName?, Option.filter_some,
            Bool.not_false, Bool.true_and, Bool.false_eq_true, if_false]
          split <;> rfl
  | constant name => simp [site?, constantSite?, hquery, Event.freeName?]
  | _ =>
      rw [filter_site?_of_unnamed (.inl ⟨subject, hquery⟩) (fun kind => by cases kind <;> rfl)
        (by decide)]
      rfl

/-- Constants are reported exactly. The names of constants are those of the nodes of the tree that
are constants, each node once. A search for a constant reports as accesses the names that denote the
constant where they stand, in the order of the text, and nothing else. -/
theorem constants_reported_exactly (c : Catalog) (settings : Settings) (subject : String)
    (ss : List Stmt) :
    let s := ofQuery c settings (.constant subject)
    (freeNames .constant ss).map Prod.snd = (nodesOf ss).filterMap (Node.freeName? .constant) ∧
      s.reportedAs .constantAccess ss =
        ((freeNames .constant ss).filter fun x =>
          (s.resolver.resolve x.1 .constant x.2.text).denotes subject .constant).map
            fun x => (x.1, x.2.span) := by
  intro s
  have hquery : s.query = .constant subject := rfl
  exact ⟨map_snd_freeNames .constant ss, reportedAs_eq (constantAccess_site? hquery) ss⟩

/-- Calls are reported unless they are spelled like a function whose arguments name functions and
members. The names that are called are those of the nodes of the tree that call a name, each node
once. Of those that denote the function that is searched for, a search reports as calls just the
ones with another spelling, in the order of the text, and nothing else. So it reports all of them if
and only if none has such a spelling. -/
theorem calls_reported_unless_indirect (c : Catalog) (settings : Settings) (subject : String)
    (ss : List Stmt) :
    let s := ofQuery c settings (.function subject)
    let meant := (freeNames .function ss).filter fun x =>
      (s.resolver.resolve x.1 .function x.2.text).denotes subject .function
    (freeNames .function ss).map Prod.snd = (nodesOf ss).filterMap (Node.freeName? .function) ∧
      s.reportedAs .functionCall ss =
        (meant.filter fun x => !settings.isIndirectCall x.2.text).map (fun x => (x.1, x.2.span)) ∧
      (s.reportedAs .functionCall ss = meant.map (fun x => (x.1, x.2.span)) ↔
        ∀ x ∈ meant, settings.isIndirectCall x.2.text = false) := by
  intro s meant
  have hquery : s.query = .function subject := rfl
  have hreported : s.reportedAs .functionCall ss =
      (meant.filter fun x => !settings.isIndirectCall x.2.text).map
        fun x => (x.1, x.2.span) := by
    rw [List.filter_filter]
    exact reportedAs_eq (functionCall_site? hquery) ss
  refine ⟨map_snd_freeNames .function ss, hreported, ?_⟩
  rw [hreported]
  constructor
  · -- Lists of one length: nothing was left out.
    intro heq x hx
    have hlength := congrArg List.length heq
    rw [List.length_map, List.length_map, List.length_filter_eq_length_iff] at hlength
    simpa using hlength x hx
  · intro hspelled
    rw [List.filter_eq_self.2 fun x hx => by simp [hspelled x hx]]

/-- A file that declares a function of the namespace `App` with the name of a function of the
language whose argument names a constant, and calls it. -/
def ownConstantFile : SourceFile where
  path := "app.php"
  text := "namespace App; function constant($n) \x7b\x7d constant('X');"
  tree := some
    [.namespaceLine (some ⟨"App", ⟨10, 13⟩⟩),
      .function ⟨"constant", ⟨24, 32⟩⟩ [.mk "n" none none none none ⟨0, 0⟩] none [],
      .expr (.call (.named ⟨"constant", ⟨40, 48⟩⟩) [.text "X" ⟨49, 52⟩] ⟨40, 53⟩)]

/-- The call denotes the declared function and is not reported. -/
theorem own_constant_call_not_reported :
    let c := (Workspace.after {} [.setFile ownConstantFile, .snapshot]).catalog
    let s := ofQuery c {} (.function "App\\constant")
    (c.lookup? .function "App\\constant").isSome = true ∧
      ((freeNames .function ownConstantFile.stmts).map fun x =>
        (x.2, s.resolver.resolve x.1 .function x.2.text)) =
          [(⟨"constant", ⟨40, 48⟩⟩, .qualified "App\\constant")] ∧
      (s.sites ownConstantFile.stmts).length = 0 :=
  ⟨by decide +kernel, by decide +kernel, by decide +kernel⟩

end Search
end CrossReference
