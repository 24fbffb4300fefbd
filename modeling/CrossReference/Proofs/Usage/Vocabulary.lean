import CrossReference.Proofs.Name
import CrossReference.Proofs.Scope.Decided
import CrossReference.Proofs.Usage.Invariant

/-!
# The names that a walk can come to know

A file forms names from what it mentions: it cuts them, trims them and puts one into the namespace
of another. Types of objects come besides from the declarations, through what a type extends and
through the declared types of functions and members. A vocabulary is a pair of properties that is
closed under all this: `Spelt` of the names that the file itself spells out and `Known` of the type
names and the contents of strings that are known at some place of it.

* `Vocabulary.spelt_resolve` and `Vocabulary.known_resolve` say what names resolve to.
* `Vocabulary.known_value` says it of the values of expressions.
* `Vocabulary.invariant` says that all of this holds along the walk over a file.
-/

namespace CrossReference

open CrossReference.Tree

/-- Properties of names that hold of what `A` allows a file to mention and that no step of the walk
leads out of. -/
structure Vocabulary (r : Resolver) (A : Mention → Prop) where
  /-- The names that the file spells out, by family. -/
  Spelt : NameKind → String → Prop
  /-- The type names and the contents of strings that are known somewhere in the file. -/
  Known : String → Prop
  spelt_name : ∀ {kind : NameKind} {name : Word}, A (.ofName kind name) → Spelt kind name.text
  spelt_namespace : ∀ {text : String}, A (.namespaceName text) → Spelt .classLike text
  spelt_part : ∀ {kind : NameKind} {whole part : String}, Spelt kind whole →
    part.toList <:+: whole.toList → Spelt kind part
  spelt_join : ∀ {kind : NameKind} {outer inner : String}, Spelt .classLike outer →
    Spelt kind inner → Spelt kind (Name.join outer inner)
  known_spelt : ∀ {name : String}, Spelt .classLike name → Known name
  known_literal : ∀ {text : String}, A (.literal text) → Known text
  known_relative : ∀ {name : String}, Known name → Known (Name.relative name)
  known_anonymous : Known Tracker.anonymousClass
  known_parent : ∀ {type parent : String}, Spelt .classLike type ∨ type = Tracker.anonymousClass →
    r.catalog.parentOf? type = some parent → Known parent
  known_call : ∀ {name type : String} {s : Symbol}, Spelt .function name →
    r.catalog.lookup? .function name = some s → r.declaredType? s = some type → Known type
  known_member : ∀ {receiver member type : String} {kind : SymbolKind} {s : Symbol},
    kind = .method ∨ kind = .property → Known receiver → A (.word member) →
    r.catalog.findMember? receiver member kind = some s → r.declaredType? s = some type → Known type

namespace Vocabulary

variable {r : Resolver} {A : Mention → Prop} (V : Vocabulary r A)

/-! ## Contexts -/

/-- Namespace, imports and enclosing types consist of names that the file spells out. -/
structure InContext (ctx : Context) : Prop where
  currentNamespace : ∀ outer, ctx.currentNamespace = some outer → V.Spelt .classLike outer
  target : ∀ kind name target, (ctx.imports.family kind).find? name = some target →
    V.Spelt kind target
  enclosing : ∀ type ∈ ctx.enclosing,
    V.Spelt .classLike type ∨ type = Tracker.anonymousClass

variable {V}

theorem inContext_empty : V.InContext ∅ where
  currentNamespace := by
    intro outer h
    exact absurd h (by simp [show (∅ : Context).currentNamespace = none from rfl])
  target := by
    intro kind name target h
    have hnone : ((∅ : Context).imports.family kind).find? name = none := by
      cases kind <;> rfl
    exact absurd h (by simp [hnone])
  enclosing := by
    intro type h
    exact absurd h (by simp [show (∅ : Context).enclosing = [] from rfl])

theorem spelt_relative {kind : NameKind} {name : String} (h : V.Spelt kind name) :
    V.Spelt kind (Name.relative name) :=
  V.spelt_part h (Name.isInfix_relative name)

theorem InContext.enterNamespace {ctx : Context} (hctx : V.InContext ctx) {name : Option Word}
    (h : ∀ w, name = some w → A (.namespaceName w.text)) :
    V.InContext (ctx.enterNamespace (name.map Word.text)) where
  currentNamespace := by
    intro outer houter
    cases name with
    | none => exact absurd houter (by simp [Context.enterNamespace])
    | some w =>
        -- An empty namespace counts as none; any other is kept without its outer separators.
        have hbare : Name.bare w.text = outer := by
          simp only [Context.enterNamespace, Option.map_some, Option.filter_eq_some_iff,
            Option.some.injEq] at houter
          exact houter.1
        rw [← hbare]
        exact V.spelt_part (V.spelt_namespace (h w rfl)) (Name.isInfix_bare w.text)
  target := inContext_empty.target
  enclosing := hctx.enclosing

theorem InContext.addImport {ctx : Context} (hctx : V.InContext ctx) {kind : NameKind}
    {name target : String} (h : V.Spelt kind target) :
    V.InContext (ctx.addImport kind name target) where
  currentNamespace := hctx.currentNamespace
  target := by
    intro family word found hfound
    rw [show (ctx.addImport kind name target).imports = ctx.imports.add kind name target from rfl,
      Imports.family_add] at hfound
    split at hfound
    · rename_i hfamily
      subst hfamily
      rw [OrderedMap.find?_insert] at hfound
      split at hfound
      · obtain rfl := Option.some.inj hfound
        exact spelt_relative h
      · exact hctx.target _ word found hfound
    · exact hctx.target family word found hfound
  enclosing := hctx.enclosing

theorem InContext.pushType {ctx : Context} (hctx : V.InContext ctx) {type : String}
    (h : V.Spelt .classLike type ∨ type = Tracker.anonymousClass) :
    V.InContext (ctx.pushType type) where
  currentNamespace := hctx.currentNamespace
  target := hctx.target
  enclosing := List.forall_mem_cons.2 ⟨h, hctx.enclosing⟩

theorem InContext.popType {ctx : Context} (hctx : V.InContext ctx) :
    V.InContext ctx.popType where
  currentNamespace := hctx.currentNamespace
  target := hctx.target
  enclosing := fun type h => hctx.enclosing type (List.mem_of_mem_tail h)

/-! ## Resolution -/

theorem InContext.spelt_qualify {ctx : Context} (hctx : V.InContext ctx) {kind : NameKind}
    {name : String} (h : V.Spelt kind name) : V.Spelt kind (ctx.qualify name) := by
  unfold Context.qualify
  split
  · rename_i outer houter
    exact V.spelt_join (hctx.currentNamespace outer houter) (spelt_relative h)
  · exact spelt_relative h

theorem InContext.spelt_ofHead? {ctx : Context} (hctx : V.InContext ctx) {kind : NameKind}
    {raw : String} (h : V.Spelt kind raw) {reading : Reading}
    (hreading : Reading.ofHead? ctx raw = some reading) :
    ∀ name ∈ reading.candidates, V.Spelt kind name := by
  unfold Reading.ofHead? at hreading
  split at hreading
  · exact absurd hreading (by simp)
  · rename_i head rest hsplit
    have hrest : V.Spelt kind rest := V.spelt_part h (Text.infix_of_splitFirst? hsplit).2
    split at hreading
    · obtain rfl := Option.some.inj hreading
      simpa [Reading.candidates] using hctx.spelt_qualify hrest
    · obtain ⟨target, htarget, rfl⟩ := Option.map_eq_some_iff.1 hreading
      simpa [Reading.candidates] using V.spelt_join (hctx.target _ _ target htarget) hrest

/-- Whatever a name that is spelled out may stand for is made of what is spelled out. -/
theorem InContext.spelt_candidates {ctx : Context} (hctx : V.InContext ctx) {kind : NameKind}
    {raw : String} (h : V.Spelt kind raw) :
    ∀ name ∈ ctx.candidates kind raw, V.Spelt kind name := by
  unfold Context.candidates Reading.ofName
  split
  · rename_i absolute hstrip
    simpa [Reading.candidates] using V.spelt_part h (Text.infix_of_stripStart? hstrip)
  · split
    · rename_i target htarget
      simpa [Reading.candidates] using hctx.target kind _ target htarget
    · split
      · rename_i reading hreading
        exact hctx.spelt_ofHead? h hreading
      · split
        · simpa [Reading.candidates] using ⟨hctx.spelt_qualify h, h⟩
        · simpa [Reading.candidates] using h

/-- Without the meaning of a keyword, a name stands for one of its candidates or for itself. -/
theorem name_resolveReading (r : Resolver) (ctx : Context) (kind : NameKind) (raw : String) :
    (r.resolveReading ctx kind raw).name = raw ∨
      (r.resolveReading ctx kind raw).name ∈ ctx.candidates kind raw := by
  unfold Resolver.resolveReading Context.candidates
  cases Reading.ofName ctx kind raw with
  | definite name => exact .inr (by simp [Resolved.name, Reading.candidates])
  | search candidates =>
      simp only [Reading.candidates, Resolver.searchFor]
      cases hfind : candidates.find? (r.isDeclared kind) with
      | some found => exact .inr (List.mem_of_find?_eq_some hfind)
      | none =>
          -- Nothing is declared: a builtin stands for itself, else the best candidate is kept.
          by_cases hbuiltin : r.isBuiltin kind raw = true
          · exact .inl (by simp [hbuiltin, Resolved.name])
          · cases candidates with
            | nil => exact .inl (by simp [hbuiltin, Resolved.name])
            | cons first rest => exact .inr (by simp [hbuiltin, Resolved.name])

theorem InContext.spelt_resolveReading {ctx : Context} (hctx : V.InContext ctx) {kind : NameKind}
    {raw : String} (h : V.Spelt kind raw) : V.Spelt kind (r.resolveReading ctx kind raw).name := by
  rcases name_resolveReading r ctx kind raw with hname | hname
  · rw [hname]
    exact h
  · exact hctx.spelt_candidates h _ hname

/-- A function's name stands for a name that is spelled out. -/
theorem InContext.spelt_resolve_function {ctx : Context} (hctx : V.InContext ctx) {raw : String}
    (h : V.Spelt .function raw) : V.Spelt .function (r.resolve ctx .function raw).name := by
  unfold Resolver.resolve
  split
  · exact h
  · exact hctx.spelt_resolveReading h

theorem InContext.known_selfType {ctx : Context} (hctx : V.InContext ctx) {type : String}
    (h : r.selfType? ctx = some type) : V.Known type := by
  rcases hctx.enclosing type (List.mem_of_head? h) with htype | rfl
  · exact V.known_spelt htype
  · exact V.known_anonymous

theorem InContext.known_parentType {ctx : Context} (hctx : V.InContext ctx) {type : String}
    (h : r.parentType? ctx = some type) : V.Known type := by
  obtain ⟨inner, hinner, hparent⟩ := Option.bind_eq_some_iff.1 h
  exact V.known_parent (hctx.enclosing inner (List.mem_of_head? hinner)) hparent

theorem InContext.known_resolveKeyword {ctx : Context} (hctx : V.InContext ctx) {raw : String}
    (h : V.Spelt .classLike raw) {resolved : Resolved}
    (hresolved : r.resolveKeyword? ctx raw = some resolved) : V.Known resolved.name := by
  unfold Resolver.resolveKeyword? at hresolved
  split at hresolved
  · obtain rfl := Option.some.inj hresolved
    cases hself : r.selfType? ctx with
    | some type => exact hctx.known_selfType hself
    | none => exact V.known_spelt h
  · split at hresolved
    · obtain rfl := Option.some.inj hresolved
      cases hparent : r.parentType? ctx with
      | some type => exact hctx.known_parentType hparent
      | none => exact V.known_spelt h
    · exact absurd hresolved (by simp)

/-- A class name stands for a known type, also if it is a keyword. -/
theorem InContext.known_resolve {ctx : Context} (hctx : V.InContext ctx) {raw : String}
    (h : V.Spelt .classLike raw) : V.Known (r.resolve ctx .classLike raw).name := by
  unfold Resolver.resolve
  split
  · exact V.known_spelt h
  · cases hkeyword : r.resolveKeyword? ctx raw with
    | some resolved => exact hctx.known_resolveKeyword h hkeyword
    | none => exact V.known_spelt (hctx.spelt_resolveReading h)

/-! ## Values and local variables -/

variable (V) in
/-- The type and the contents of a value, if there are any, are known. -/
structure InValue (v : Value) : Prop where
  type : ∀ name, v.type = some name → V.Known name
  text : ∀ contents, v.text = some contents → V.Known contents

theorem inValue_untraceable : V.InValue .untraceable where
  type := fun _ h => absurd h (by simp [Value.untraceable])
  text := fun _ h => absurd h (by simp [Value.untraceable])

theorem inValue_object {type : Option String} {origin : Origin}
    (h : ∀ name, type = some name → V.Known name) : V.InValue (.object type origin) := by
  cases type with
  | none => exact inValue_untraceable
  | some name =>
      refine ⟨fun found hfound => ?_, fun _ htext => absurd htext (by simp [Value.object])⟩
      obtain rfl := Option.some.inj hfound
      exact h name rfl

theorem inValue_string {contents : String} {origin : Origin} (h : V.Known contents) :
    V.InValue (.string contents origin) where
  type := fun _ htype => absurd htype (by simp [Value.string])
  text := by
    intro found hfound
    obtain rfl := Option.some.inj hfound
    exact h

theorem InValue.hop {v : Value} (hv : V.InValue v) (limit : Nat) : V.InValue (v.hop limit) := by
  unfold Value.hop
  split
  · exact inValue_untraceable
  · split
    · exact ⟨hv.type, hv.text⟩
    · exact inValue_untraceable
  · split
    · exact ⟨hv.type, hv.text⟩
    · exact inValue_untraceable

/-- What a value denotes in the place of a class is known. -/
theorem InValue.known_denotedType {v : Value} (hv : V.InValue v) {type : String}
    (h : Resolver.denotedType? v = some type) : V.Known type := by
  unfold Resolver.denotedType? at h
  cases htext : v.text with
  | some contents =>
      simp only [htext, Option.map_some, Option.some_or, Option.some.injEq] at h
      subst h
      exact V.known_relative (hv.text contents htext)
  | none =>
      simp only [htext, Option.map_none, Option.none_or] at h
      exact hv.type type h

theorem InValue.memberValue {v : Value} (hv : V.InValue v) {name : String} {kind : SymbolKind}
    (hkind : kind = .method ∨ kind = .property) (hname : A (.word name)) :
    V.InValue (r.memberValue v name kind) := by
  unfold Resolver.memberValue
  split
  · exact inValue_untraceable
  · rename_i receiver hreceiver
    apply inValue_object
    intro type htype
    obtain ⟨s, hs, hdeclared⟩ := Option.bind_eq_some_iff.1 htype
    exact V.known_member hkind (hv.type receiver hreceiver) hname hs hdeclared

theorem InValue.newValue {v : Value} (hv : V.InValue v) : V.InValue (Resolver.newValue v) :=
  inValue_object hv.type

theorem InValue.classNameValue {v : Value} (hv : V.InValue v) :
    V.InValue (Resolver.classNameValue v) := by
  unfold Resolver.classNameValue
  split
  · rename_i name hname
    exact inValue_string (hv.type name hname)
  · exact inValue_untraceable

variable (V) in
/-- All that is kept about variables is known. -/
structure InLocals (l : Locals) : Prop where
  values : ∀ name v, l.values.find? name = some v → V.InValue v
  docs : ∀ name type, l.docs.find? name = some type → V.Known type

theorem inLocals_start (hopLimit : Nat) : V.InLocals (.start hopLimit) where
  values := fun name _ h =>
    absurd h (by simp [show (Locals.start hopLimit).values.find? name = none from rfl])
  docs := fun name _ h =>
    absurd h (by simp [show (Locals.start hopLimit).docs.find? name = none from rfl])

/-- A known value may be put under any variable. -/
theorem InLocals.insert {l : Locals} (hl : V.InLocals l) (name : String) {v : Value}
    (hv : V.InValue v) : V.InLocals { l with values := l.values.insert name v } where
  values := by
    intro other found hfound
    rw [OrderedMap.find?_insert] at hfound
    split at hfound
    · obtain rfl := Option.some.inj hfound
      exact hv
    · exact hl.values other found hfound
  docs := hl.docs

theorem InLocals.document {l : Locals} (hl : V.InLocals l) (name : String) {type : String}
    (htype : V.Known type) : V.InLocals (l.document name type) where
  values := hl.values
  docs := by
    intro other found hfound
    change (l.docs.insert name type).find? other = some found at hfound
    rw [OrderedMap.find?_insert] at hfound
    split at hfound
    · obtain rfl := Option.some.inj hfound
      exact htype
    · exact hl.docs other found hfound

theorem InLocals.get {l : Locals} (hl : V.InLocals l) (name : String) : V.InValue (l.get name) := by
  have hv : V.InValue ((l.values.find? name).getD .untraceable) := by
    cases hfind : l.values.find? name with
    | none => exact inValue_untraceable
    | some v => exact hl.values name v hfind
  simp only [Locals.get]
  split
  · rename_i type _ hdoc
    refine ⟨fun found hfound => ?_, hv.text⟩
    obtain rfl := Option.some.inj hfound
    exact hl.docs name type hdoc
  · exact hv

/-! ## Values of expressions -/

variable (V) in
/-- All that is in force at a place is known. -/
structure InPlace (p : Place) : Prop where
  context : V.InContext p.context
  locals : V.InLocals p.locals

-- Only a few forms have a value of which anything is known; the others are untraceable.
mutual

/-- What is known about the value of an expression comes from the vocabulary. -/
theorem InPlace.value {p : Place} (hp : V.InPlace p) : (e : Expr) →
    (∀ m ∈ Mentions.expr e, A m) → V.InValue (r.value p e)
  | .var name _, _ => by
      rw [Resolver.value]
      split
      · exact inValue_object fun type htype => hp.context.known_selfType htype
      · exact hp.locals.get name
  | .text contents _, h => by
      rw [Resolver.value]
      exact inValue_string (V.known_literal (h _ (by simp [Mentions.expr])))
  | .classConstant operand name _, h => by
      simp only [Mentions.expr, List.forall_mem_append] at h
      rw [Resolver.value]
      split
      · exact (hp.classValue operand h.1).classNameValue
      · exact inValue_untraceable
  | .new operand _ _, h => by
      simp only [Mentions.expr, List.forall_mem_append] at h
      rw [Resolver.value]
      exact (hp.classValue operand h.1).newValue
  | .methodCall receiver (.ident method) _ _ _, h => by
      simp only [Mentions.expr, Mentions.memberName, List.forall_mem_append,
        List.forall_mem_singleton] at h
      rw [Resolver.value]
      exact (hp.value receiver h.1.1).memberValue (.inl rfl) h.1.2
  | .methodCall _ (.dynamic _) _ _ _, _ => inValue_untraceable
  | .property receiver (.ident name) _ _, h => by
      simp only [Mentions.expr, Mentions.memberName, List.forall_mem_append,
        List.forall_mem_singleton] at h
      rw [Resolver.value]
      exact (hp.value receiver h.1).memberValue (.inr rfl) h.2
  | .property _ (.dynamic _) _ _, _ => inValue_untraceable
  | .staticCall operand (.ident method) _ _, h => by
      simp only [Mentions.expr, Mentions.memberName, List.forall_mem_append,
        List.forall_mem_singleton] at h
      rw [Resolver.value]
      exact (hp.classValue operand h.1.1).memberValue (.inl rfl) h.1.2
  | .staticCall _ (.dynamic _) _ _, _ => inValue_untraceable
  | .staticProperty operand (.ident name) _, h => by
      simp only [Mentions.expr, Mentions.memberName, List.forall_mem_append,
        List.forall_mem_singleton] at h
      rw [Resolver.value]
      exact (hp.classValue operand h.1).memberValue (.inr rfl) h.2
  | .staticProperty _ (.dynamic _) _, _ => inValue_untraceable
  | .call (.named name) _ _, h => by
      have hname : V.Spelt .function name.text :=
        V.spelt_name (h _ (by simp [Mentions.expr, Mention.ofName]))
      rw [Resolver.value]
      apply inValue_object
      intro type htype
      obtain ⟨s, hs, hdeclared⟩ := Option.bind_eq_some_iff.1 htype
      exact V.known_call (hp.context.spelt_resolve_function hname) hs hdeclared
  | .call (.value _) _ _, _ => inValue_untraceable
  | .assign _ assigned _, h => by
      simp only [Mentions.expr, List.forall_mem_append] at h
      rw [Resolver.value]
      exact hp.value assigned h.2
  | .literal _, _ => inValue_untraceable
  | .constant _, _ => inValue_untraceable
  | .newAnonymous _ _ _, _ => inValue_untraceable
  | .instanceOf _ _ _, _ => inValue_untraceable
  | .array _ _, _ => inValue_untraceable
  | .closure _ _ _ _ _, _ => inValue_untraceable
  | .arrow _ _ _ _, _ => inValue_untraceable
  | .compound _ _, _ => inValue_untraceable

theorem InPlace.classValue {p : Place} (hp : V.InPlace p) : (target : ClassRef) →
    (∀ m ∈ Mentions.operand target, A m) → V.InValue (r.classValue p target).1
  | .named name, h => by
      have hname : V.Spelt .classLike name.text :=
        V.spelt_name (h _ (by simp [Mentions.operand, Mention.ofName]))
      rw [Resolver.classValue]
      show V.InValue (.object (some (r.resolve p.context .classLike name.text).name) .explicit)
      apply inValue_object
      intro type htype
      obtain rfl := Option.some.inj htype
      exact hp.context.known_resolve hname
  | .selfType _, _ => by
      rw [Resolver.classValue]
      exact inValue_object fun type htype => hp.context.known_selfType htype
  | .staticType _, _ => by
      rw [Resolver.classValue]
      exact inValue_object fun type htype => hp.context.known_selfType htype
  | .parentType _, _ => by
      rw [Resolver.classValue]
      exact inValue_object fun type htype => hp.context.known_parentType htype
  | .dynamic inner, h => by
      rw [Resolver.classValue]
      exact inValue_object fun type htype => (hp.value inner h).known_denotedType htype

end

/-! ## Along the walk -/

theorem InContext.known_namedType {ctx : Context} (hctx : V.InContext ctx) {name : Word}
    (hname : A (.className name.text)) {type : String} (h : r.namedType? ctx name = some type) :
    V.Known type := by
  unfold Resolver.namedType? at h
  split at h
  · exact absurd h (by simp)
  · obtain rfl := Option.some.inj h
    exact hctx.known_resolve (V.spelt_name hname)

theorem InContext.known_hintType {ctx : Context} (hctx : V.InContext ctx) {hint : TypeHint}
    (hnames : ∀ m ∈ Mentions.classNames hint.names, A m) {type : String}
    (h : r.hintType? ctx hint = some type) : V.Known type := by
  obtain ⟨name, hname, hfound⟩ := List.exists_of_findSome?_eq_some h
  exact hctx.known_namedType (hnames _ (List.mem_map_of_mem hname)) hfound

theorem InContext.bindParam {ctx : Context} (hctx : V.InContext ctx) {l : Locals}
    (hl : V.InLocals l) : (param : Param) → (∀ m ∈ Mentions.params [param], A m) →
    V.InLocals (Tracker.bindParam r ctx l param)
  | .mk name hint doc _ _ _, h => by
      simp only [Mentions.params, List.forall_mem_append] at h
      obtain ⟨⟨⟨hhint, hdoc⟩, _⟩, _⟩ := h
      refine hl.insert name (inValue_object fun type htype => ?_)
      obtain ⟨found, hfound, hnamed⟩ := Option.bind_eq_some_iff.1 htype
      -- The written type counts, and the documented one only if none is written.
      rcases Option.or_eq_some_iff.1 hfound with rfl | ⟨_, rfl⟩
      · exact hctx.known_hintType hhint hnamed
      · exact hctx.known_hintType hdoc hnamed

theorem InContext.bindParams {ctx : Context} (hctx : V.InContext ctx) (ps : List Param)
    (h : ∀ m ∈ Mentions.params ps, A m) {l : Locals} (hl : V.InLocals l) :
    V.InLocals (ps.foldl (Tracker.bindParam r ctx) l) := by
  induction ps generalizing l with
  | nil => exact hl
  | cons param ps ih =>
      obtain ⟨name, hint, doc, default, promoted, span⟩ := param
      simp only [Mentions.params, List.forall_mem_append] at h
      refine ih h.2 (hctx.bindParam hl _ ?_)
      simpa only [Mentions.params, List.append_nil, List.forall_mem_append] using h.1

/-- At every place of the walk all that is in force is known. -/
theorem invariant (V : Vocabulary r A) : Tracker.Invariant r A V.InPlace where
  enterNamespace _ _ hp h := ⟨hp.context.enterNamespace h, hp.locals⟩
  addImport _ _ _ hp h := ⟨hp.context.addImport (V.spelt_name h), hp.locals⟩
  enterType p name hp h := by
    refine ⟨hp.context.pushType ?_, hp.locals⟩
    cases name with
    | none => exact .inr rfl
    | some w => exact .inl (hp.context.spelt_qualify (V.spelt_name (h w rfl)))
  leaveType _ hp := ⟨hp.context.popType, hp.locals⟩
  forget _ var hp := ⟨hp.context, hp.locals.insert var inValue_untraceable⟩
  assign p var e hp h := ⟨hp.context, hp.locals.insert var ((hp.value e h).hop p.locals.hopLimit)⟩
  bindCaught p var types hp h := by
    refine ⟨hp.context, hp.locals.insert var (inValue_object fun type htype => ?_)⟩
    obtain ⟨name, hname, hfound⟩ := Option.bind_eq_some_iff.1 htype
    exact hp.context.known_namedType (h _ (List.mem_map_of_mem (List.mem_of_head? hname))) hfound
  document _ var _ _ hp h htype :=
    ⟨hp.context, hp.locals.document var (hp.context.known_hintType h htype)⟩
  enterFunction p ps hp h := ⟨hp.context, hp.context.bindParams ps h (inLocals_start _)⟩
  leaveFunction _ _ hbefore hafter := ⟨hafter.context, hbefore.locals⟩

/-- The events of a file whose mentions satisfy `A` stay inside the vocabulary. -/
theorem within_of_mem_eventsOf (V : Vocabulary r A) {hopLimit : Nat} {ss : List Stmt}
    (h : ∀ m ∈ Mentions.stmts ss, A m) {e : Event} (he : e ∈ eventsOf r hopLimit ss) :
    e.Within A V.InPlace :=
  V.invariant.of_mem_eventsOf ⟨inContext_empty, inLocals_start hopLimit⟩ h he

end Vocabulary
end CrossReference
