import CrossReference.Proofs.Trace.Hops
import CrossReference.Proofs.Usage.Attribution

/-!
# Strings in local variables

How far a string is trusted that a site reaches through a local variable. A variable holds a string
only because it was followed there, and what is named through such a string is at best possible.
Documentation makes a difference: a documented type of a variable that holds a string lends its
origin to the string too, and then the string is trusted as if it were declared.

* `Site.CappedBy` compares the confidence in a site with what an origin allows, and
  `Search.cappedBy_of_naming` applies it to the variables that name what is found.
* `Search.strings_traced_unless_hinted` says which strings are trusted how far.
-/

namespace CrossReference

open CrossReference.Tree

/-! ## What an origin allows -/

namespace Confidence

theorem rank_le_worse_left (a b : Confidence) : a.rank ≤ (a.worse b).rank := by
  unfold worse
  split <;> omega

theorem rank_le_worse_right (a b : Confidence) : b.rank ≤ (a.worse b).rank := by
  unfold worse
  split <;> omega

theorem rank_le_foldl (origins : List Origin) (tier : Confidence) :
    tier.rank ≤ (origins.foldl (fun tier origin => tier.worse (ofOrigin origin)) tier).rank := by
  induction origins generalizing tier with
  | nil => exact Nat.le_refl _
  | cons origin origins ih => exact Nat.le_trans (rank_le_worse_left _ _) (ih _)

/-- A tier sinks at least as far as each of the origins takes it. -/
theorem rank_ofOrigin_le_foldl {origins : List Origin} {o : Origin} (h : o ∈ origins)
    (tier : Confidence) : (ofOrigin o).rank ≤
      (origins.foldl (fun tier origin => tier.worse (ofOrigin origin)) tier).rank := by
  induction origins generalizing tier with
  | nil => exact absurd h List.not_mem_nil
  | cons origin origins ih =>
      rcases List.mem_cons.1 h with rfl | h
      · exact Nat.le_trans (rank_le_worse_right _ _) (rank_le_foldl origins _)
      · exact ih h _

theorem rank_le_dynamic (tier : Confidence) : tier.rank ≤ dynamic.rank := by
  cases tier <;> decide

theorem two_le_rank_iff {tier : Confidence} : 2 ≤ tier.rank ↔ tier = possible ∨ tier = dynamic := by
  cases tier <;> decide

end Confidence

namespace Site

/-- The confidence in a site is nowhere better than what the origin allows. -/
def CappedBy (o : Origin) (site : Site) : Prop :=
  ∀ ctx, (Confidence.ofOrigin o).rank ≤ (site.confidence ctx).rank

variable {site : Site} {o : Origin}

theorem cappedBy_of_reflective (h : site.evidence.reflective = true) : site.CappedBy o := by
  intro ctx
  rw [confidence_of_isDynamic (isDynamic_of_reflective ctx h)]
  exact Confidence.rank_le_dynamic _

theorem cappedBy_of_mem
    (h : o ∈ site.evidence.receiver.toList ++ site.evidence.mediator.toList) :
    site.CappedBy o := by
  intro ctx
  unfold confidence
  split
  · exact Confidence.rank_le_dynamic _
  · exact Confidence.rank_ofOrigin_le_foldl h _

theorem cappedBy_of_receiver (h : site.evidence.receiver = some o) : site.CappedBy o :=
  cappedBy_of_mem (by simp [h])

theorem cappedBy_of_mediator (h : site.evidence.mediator = some o) : site.CappedBy o :=
  cappedBy_of_mem (by simp [h])

/-- No origin allows less than the one of which nothing is known. -/
theorem CappedBy.of_untraceable (h : site.CappedBy .untraceable) : site.CappedBy o :=
  fun ctx => Nat.le_trans (Confidence.rank_le_dynamic _) (h ctx)

end Site

/-! ## Variables that name what is found -/

/-- The variable that stands in the place of a class. -/
def Tree.ClassRef.var? : ClassRef → Option String
  | .dynamic e => e.variable?
  | _ => none

/-- The variable that stands in the place of a member's name. -/
def Tree.MemberName.var? : MemberName → Option String
  | .dynamic e => e.variable?
  | _ => none

theorem Resolver.value_of_var (r : Resolver) (p : Place) {e : Expr} {var : String}
    (h : e.variable? = some var) (hthis : var ≠ "this") : r.value p e = p.locals.get var := by
  cases e with
  | var name span =>
      obtain rfl := Option.some.inj h
      rw [Resolver.value, if_neg hthis]
  | _ => exact nomatch h

/-- The class that a variable denotes is known as the variable is. -/
theorem Resolver.classValue_of_var (r : Resolver) (p : Place) {target : ClassRef}
    {var type : String} (h : target.var? = some var) (hthis : var ≠ "this")
    (htype : (r.classValue p target).1.type = some type) :
    (r.classValue p target).1.origin = (p.locals.get var).origin := by
  cases target with
  | dynamic e =>
      rw [Resolver.classValue, r.value_of_var p h hthis] at htype ⊢
      dsimp only at htype ⊢
      cases hdenoted : Resolver.denotedType? (p.locals.get var) with
      | none =>
          rw [hdenoted] at htype
          exact absurd htype (by simp [Value.object, Value.untraceable])
      | some denoted => rfl
  | _ => exact absurd h (by simp [ClassRef.var?])

namespace Search

variable {s : Search}

/-- The expressions that a call of a function with the given arguments takes names from. -/
def indirectOperands (function : String) (args : List Expr) : List Expr :=
  (indirectTarget? function args).toList.flatMap fun found => found.1.toList ++ [found.2]

/-- The variables whose strings can name the class, the function or the member at a node. -/
def namingVariables (s : Search) : Reference → List String
  | .operand target _ => target.var?.toList
  | .construction target => target.var?.toList
  | .call name args =>
    if s.settings.isIndirectCall name.text then
      (indirectOperands (Name.key name.text) args).filterMap Expr.variable?
    else
      []
  | .callValue callee => callee.variable?.toList
  | .member (.object _) name _ _ => name.var?.toList
  | .member (.type target) name _ _ => target.var?.toList ++ name.var?.toList
  | _ => []

section Capped

variable {p : Place} {site : Site} {var : String}

theorem cappedBy_operandSite? {target : ClassRef} {role : UsageKind}
    (hvar : target.var? = some var) (hthis : var ≠ "this")
    (h : s.operandSite? p role target = some site) :
    site.CappedBy (p.locals.get var).origin := by
  cases target with
  | dynamic e =>
      rw [operandSite?] at h
      unfold dynamicClassSite? at h
      rw [s.resolver.value_of_var p hvar hthis] at h
      dsimp only at h
      split at h
      · split at h
        · obtain rfl := Option.some.inj h
          exact Site.cappedBy_of_mediator rfl
        · exact absurd h (by simp)
      · exact absurd h (by simp)
  | _ => exact absurd hvar (by simp [ClassRef.var?])

theorem cappedBy_constructionSite? {target : ClassRef} (hvar : target.var? = some var)
    (hthis : var ≠ "this") (h : s.constructionSite? p target = some site) :
    site.CappedBy (p.locals.get var).origin := by
  unfold constructionSite? at h
  split at h
  · dsimp only at h
    split at h
    · exact absurd h (by simp)
    · rename_i type htype
      obtain ⟨found, _, rfl⟩ := Option.map_eq_some_iff.1 h
      have horigin := s.resolver.classValue_of_var p hvar hthis htype
      -- What stands in the place of the class is a value, so its origin is that of a mediator.
      cases target with
      | dynamic e => exact Site.cappedBy_of_mediator (congrArg some horigin)
      | _ => exact absurd hvar (by simp [ClassRef.var?])
  · exact absurd h (by simp)

theorem reflective_reflectedMember? {type : Option String} {name : String} {access : MemberAccess}
    {span : Span} (h : s.reflectedMember? type name access span = some site) :
    site.evidence.reflective = true := by
  unfold reflectedMember? at h
  split at h
  · split at h
    · obtain ⟨found, _, rfl⟩ := Option.map_eq_some_iff.1 h
      rfl
    · exact absurd h (by simp)
  · exact absurd h (by simp)

theorem reflective_reflectedConstant? {text : String} {span : Span}
    (h : s.reflectedConstant? text span = some site) : site.evidence.reflective = true := by
  unfold reflectedConstant? at h
  split at h
  · exact reflective_reflectedMember? h
  · split at h
    · split at h
      · obtain rfl := Option.some.inj h
        rfl
      · exact absurd h (by simp)
    · exact absurd h (by simp)

/-- A string that is called is trusted as its value is, and one that a function is given to call is
reached by reflection. -/
theorem evidence_callableSite? {v : Value} {span : Span} {reflective : Bool}
    (h : s.callableSite? v span reflective = some site) :
    if reflective then site.evidence.reflective = true
    else site.evidence.mediator = some v.origin := by
  unfold callableSite? at h
  split at h
  · exact absurd h (by simp)
  · split at h
    · split at h
      · rename_i hreflective
        rw [if_pos hreflective]
        exact reflective_reflectedMember? h
      · rename_i hreflective
        rw [if_neg hreflective]
        unfold mediatedMember? at h
        split at h
        · split at h
          · obtain ⟨found, _, rfl⟩ := Option.map_eq_some_iff.1 h
            rfl
          · exact absurd h (by simp)
        · exact absurd h (by simp)
    · split at h
      · split at h
        · obtain rfl := Option.some.inj h
          cases reflective <;> rfl
        · exact absurd h (by simp)
      · exact absurd h (by simp)

theorem reflective_indirectSite? {name : Word} {args : List Expr}
    (h : s.indirectSite? p name args = some site) : site.evidence.reflective = true := by
  unfold indirectSite? at h
  dsimp only at h
  split at h
  · exact absurd h (by simp)
  · split at h
    · exact absurd h (by simp)
    · split at h
      · exact reflective_reflectedMember? h
      · split at h
        · exact reflective_reflectedConstant? h
        · exact evidence_callableSite? h

/-- A name that a variable tells is known as the variable is, or not at all. -/
theorem mediator_nameMatch? {wanted : String} {kind : SymbolKind} {name : MemberName} {span : Span}
    {mediator : Option Origin} (hvar : name.var? = some var) (hthis : var ≠ "this")
    (h : s.nameMatch? p wanted kind name = some (span, mediator)) :
    mediator = some (p.locals.get var).origin ∨ mediator = some .untraceable := by
  cases name with
  | ident word => exact absurd hvar (by simp [MemberName.var?])
  | dynamic e =>
      rw [nameMatch?, s.resolver.value_of_var p hvar hthis] at h
      split at h
      · split at h
        · split at h
          · exact .inl (Prod.mk.inj (Option.some.inj h)).2.symm
          · exact absurd h (by simp)
        · exact .inr (Prod.mk.inj (Option.some.inj h)).2.symm
      · exact .inr (Prod.mk.inj (Option.some.inj h)).2.symm

/-- What the site of a member tells of the receiver and of the member's name. -/
theorem evidence_memberSite? {receiver : Receiver} {name : MemberName} {access : MemberAccess}
    {nullsafe : Bool} (h : s.memberSite? p receiver name access nullsafe = some site) :
    (∃ wanted kind span, s.nameMatch? p wanted kind name = some (span, site.evidence.mediator)) ∧
      (site.evidence.receiver = some .untraceable ∨
        ∃ type, (s.receiverValue p receiver).1.type = some type ∧
          site.evidence.receiver = some (s.receiverValue p receiver).1.origin) := by
  unfold memberSite? at h
  split at h
  · rename_i owner wanted kind _
    split at h
    · split at h
      · exact absurd h (by simp)
      · rename_i span mediator hname
        dsimp only at h
        split at h
        · split at h
          · exact absurd h (by simp)
          · obtain rfl := Option.some.inj h
            exact ⟨⟨wanted, kind, span, hname⟩, .inl rfl⟩
        · rename_i type htype
          obtain ⟨found, _, rfl⟩ := Option.map_eq_some_iff.1 h
          exact ⟨⟨wanted, kind, span, hname⟩, .inr ⟨type, htype, rfl⟩⟩
    · exact absurd h (by simp)
  · exact absurd h (by simp)

theorem cappedBy_memberSite?_name {receiver : Receiver} {name : MemberName} {access : MemberAccess}
    {nullsafe : Bool} (hvar : name.var? = some var) (hthis : var ≠ "this")
    (h : s.memberSite? p receiver name access nullsafe = some site) :
    site.CappedBy (p.locals.get var).origin := by
  obtain ⟨⟨wanted, kind, span, hname⟩, _⟩ := evidence_memberSite? h
  rcases mediator_nameMatch? hvar hthis hname with hmediator | hmediator
  · exact Site.cappedBy_of_mediator hmediator
  · exact (Site.cappedBy_of_mediator hmediator).of_untraceable

theorem cappedBy_memberSite?_receiver {target : ClassRef} {name : MemberName}
    {access : MemberAccess} {nullsafe : Bool} (hvar : target.var? = some var)
    (hthis : var ≠ "this")
    (h : s.memberSite? p (.type target) name access nullsafe = some site) :
    site.CappedBy (p.locals.get var).origin := by
  obtain ⟨_, hreceiver | ⟨type, htype, hreceiver⟩⟩ := evidence_memberSite? h
  · exact (Site.cappedBy_of_receiver hreceiver).of_untraceable
  · have horigin := s.resolver.classValue_of_var p hvar hthis htype
    exact Site.cappedBy_of_receiver (hreceiver.trans (congrArg some horigin))

end Capped

/-- A site is nowhere better than the origin of a variable that names what is found there. -/
theorem cappedBy_of_naming {e : Event} {site : Site} (h : s.site? e = some site) {var : String}
    (hvar : var ∈ s.namingVariables e.reference) (hthis : var ≠ "this") :
    site.CappedBy (e.place.locals.get var).origin := by
  obtain ⟨p, reference⟩ := e
  cases reference with
  | operand target role => exact cappedBy_operandSite? (Option.mem_toList.1 hvar) hthis h
  | construction target => exact cappedBy_constructionSite? (Option.mem_toList.1 hvar) hthis h
  | call name args =>
      simp only [namingVariables] at hvar
      split at hvar
      · rename_i hindirect
        simp only [site?, if_pos hindirect] at h
        exact Site.cappedBy_of_reflective (reflective_indirectSite? h)
      · exact absurd hvar List.not_mem_nil
  | callValue callee =>
      simp only [site?, s.resolver.value_of_var p (Option.mem_toList.1 hvar) hthis] at h
      exact Site.cappedBy_of_mediator (evidence_callableSite? h)
  | member receiver name access nullsafe =>
      replace h : s.memberSite? p receiver name access nullsafe = some site := h
      cases receiver with
      | object e => exact cappedBy_memberSite?_name (Option.mem_toList.1 hvar) hthis h
      | type target =>
          rcases List.mem_append.1 hvar with hvar | hvar
          · exact cappedBy_memberSite?_receiver (Option.mem_toList.1 hvar) hthis h
          · exact cappedBy_memberSite?_name (Option.mem_toList.1 hvar) hthis h
  | imported kind name => exact absurd hvar List.not_mem_nil
  | typeName name role => exact absurd hvar List.not_mem_nil
  | constant name => exact absurd hvar List.not_mem_nil
  | typeBody => exact absurd hvar List.not_mem_nil

end Search

/-! ## Strings that are followed, and strings that are documented -/

/-- A string in a variable was followed there, unless a documented type stands over it. -/
theorem Locals.WellTraced.origin_of_text {limit : Nat} {l : Locals} (h : l.WellTraced limit)
    {var : String} (htext : (l.get var).text ≠ none) :
    if l.isHinted var then (l.get var).origin = .annotated
    else ∃ hops, 1 ≤ hops ∧ hops ≤ limit ∧ (l.get var).origin = .traced hops := by
  split
  · rename_i hhinted
    rw [Locals.get_eq, if_pos hhinted]
  · rename_i hplain
    rw [Locals.get_eq, if_neg hplain] at htext ⊢
    have hheld := h.stored var
    obtain ⟨hops, horigin⟩ := hheld.traced_of_text htext
    obtain ⟨hpos, hle⟩ := hheld.hops hops horigin
    exact ⟨hops, hpos, hle, horigin⟩

namespace Search

open Tracker

/-- In every state of the walk over a file, a string in a variable was followed there within the
limit, and what is named through it is possible or dynamic. Over a string whose variable has a
documented type and no other, the documentation decides: the string counts as declared, and what is
named through it is only never certain. -/
theorem strings_traced_unless_hinted (s : Search) (ss : List Stmt) :
    (∀ p, Reached s.resolver s.settings.hopLimit ss p → ∀ var, (p.locals.get var).text ≠ none →
      if p.locals.isHinted var then (p.locals.get var).origin = .annotated
      else ∃ hops, 1 ≤ hops ∧ hops ≤ s.settings.hopLimit ∧
        (p.locals.get var).origin = .traced hops) ∧
    (∀ e ∈ eventsOf s.resolver s.settings.hopLimit ss, ∀ site, s.site? e = some site →
      ∀ var ∈ s.namingVariables e.reference, var ≠ "this" →
        (e.place.locals.get var).text ≠ none →
          if e.place.locals.isHinted var then site.confidence e.place.context ≠ .certain
          else site.confidence e.place.context = .possible ∨
            site.confidence e.place.context = .dynamic) := by
  refine ⟨fun p hp var htext => hp.wellTraced.origin_of_text htext, ?_⟩
  intro e he site hsite var hvar hthis htext
  have horigin := (reached_of_mem_eventsOf he).wellTraced.origin_of_text htext
  have hcapped := cappedBy_of_naming hsite hvar hthis e.place.context
  split
  · rename_i hhinted
    rw [if_pos hhinted] at horigin
    rw [horigin] at hcapped
    intro hcertain
    rw [hcertain] at hcapped
    exact absurd hcapped (by decide)
  · rename_i hplain
    rw [if_neg hplain] at horigin
    obtain ⟨hops, _, _, horigin⟩ := horigin
    rw [horigin] at hcapped
    exact Confidence.two_le_rank_iff.1 hcapped

/-- A variable holds the name of a class and is used to make an object. -/
def followedFile : SourceFile where
  path := "make.php"
  text := "class Widget \x7b\x7d class Gadget \x7b\x7d $c = 'Widget'; new $c;"
  tree := some
    [.classLike (.mk .classDecl (some ⟨"Widget", ⟨6, 12⟩⟩) [] [] []),
      .classLike (.mk .classDecl (some ⟨"Gadget", ⟨22, 28⟩⟩) [] [] []),
      .expr (.assign (.var "c" ⟨32, 34⟩) (.text "Widget" ⟨37, 45⟩) ⟨32, 45⟩),
      .expr (.new (.dynamic (.var "c" ⟨51, 53⟩)) [] ⟨47, 53⟩)]

/-- The string was followed to the variable, and the object that is made is possible. -/
theorem followed_string_possible :
    let c := (Workspace.after {} [.setFile followedFile]).snapshot.catalog
    let s := ofQuery c {} (.type "Widget")
    (∃ p, Reached s.resolver s.settings.hopLimit followedFile.stmts p ∧
      (p.locals.get "c").text = some "Widget" ∧ p.locals.isHinted "c" = false ∧
      ∃ hops, 1 ≤ hops ∧ hops ≤ s.settings.hopLimit ∧
        (p.locals.get "c").origin = .traced hops) ∧
    ∃ e ∈ eventsOf s.resolver s.settings.hopLimit followedFile.stmts,
      ∃ site, s.site? e = some site ∧ "c" ∈ s.namingVariables e.reference ∧
        e.place.locals.isHinted "c" = false ∧
        (site.confidence e.place.context = .possible ∨
          site.confidence e.place.context = .dynamic) := by
  intro c s
  obtain ⟨hheld, hfollowed⟩ := strings_traced_unless_hinted s followedFile.stmts
  let p := ((stmts s.resolver followedFile.stmts).run { locals := .start s.settings.hopLimit }).2
  have hend : Reached s.resolver s.settings.hopLimit followedFile.stmts p := reached_end _ _
  obtain ⟨htext, hplain⟩ :
      (p.locals.get "c").text = some "Widget" ∧ p.locals.isHinted "c" = false := by
    decide +kernel
  obtain ⟨e, he, hsome, hvar, hknown, hunhinted⟩ :
      ∃ e ∈ eventsOf s.resolver s.settings.hopLimit followedFile.stmts,
        (s.site? e).isSome = true ∧ "c" ∈ s.namingVariables e.reference ∧
          (e.place.locals.get "c").text ≠ none ∧ e.place.locals.isHinted "c" = false := by
    decide +kernel
  obtain ⟨site, hsite⟩ := Option.isSome_iff_exists.1 hsome
  have horigin := hheld p hend "c" (by rw [htext]; exact Option.some_ne_none _)
  rw [if_neg (by rw [hplain]; exact Bool.false_ne_true)] at horigin
  have hconfidence := hfollowed e he site hsite "c" hvar (by decide) hknown
  rw [if_neg (by rw [hunhinted]; exact Bool.false_ne_true)] at hconfidence
  exact ⟨⟨p, hend, htext, hplain, horigin⟩, e, he, site, hsite, hvar, hunhinted, hconfidence⟩

/-- The same, with a documented type over the variable. -/
def documentedFile : SourceFile where
  path := "make.php"
  text := "class Widget \x7b\x7d class Gadget \x7b\x7d $c = 'Widget'; /** @var Gadget $c */ new $c;"
  tree := some
    [.classLike (.mk .classDecl (some ⟨"Widget", ⟨6, 12⟩⟩) [] [] []),
      .classLike (.mk .classDecl (some ⟨"Gadget", ⟨22, 28⟩⟩) [] [] []),
      .expr (.assign (.var "c" ⟨32, 34⟩) (.text "Widget" ⟨37, 45⟩) ⟨32, 45⟩),
      .varDoc "c" (.named ⟨"Gadget", ⟨56, 62⟩⟩),
      .expr (.new (.dynamic (.var "c" ⟨73, 75⟩)) [] ⟨69, 75⟩)]

/-- The string that was followed to the variable is trusted as if it were declared, and the object
that is made is probable. -/
theorem documented_string_probable :
    let c := (Workspace.after {} [.setFile documentedFile]).snapshot.catalog
    let s := ofQuery c {} (.type "Widget")
    (∃ p, Reached s.resolver s.settings.hopLimit documentedFile.stmts p ∧
      p.locals.get "c" =
        { type := some "Gadget", text := some "Widget", origin := .annotated }) ∧
    (s.sites documentedFile.stmts).map (fun found => (found.2.span, found.2.confidence found.1)) =
      [(⟨73, 75⟩, .probable)] :=
  ⟨⟨_, reached_end _ _, by decide +kernel⟩, by decide +kernel⟩

end Search
end CrossReference
