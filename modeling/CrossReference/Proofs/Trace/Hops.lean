import CrossReference.Proofs.OrderedMap
import CrossReference.Proofs.Usage.States

/-!
# Well-formed values

What is known of a value and how it is known must agree: a value without a type and without a text
cannot be followed, any other can, and it was followed through at least one assignment and through
no more than the limit allows. `Value.WellTraced` says so of one value.

* The operations on local variables keep `Locals.WellTraced`, and evaluation of an expression
  gives a value of that form wherever the local variables have it.
* `Tracker.wellTraced_of_reads` draws the conclusion for all that is read in any state of the walk
  over a file.
-/

namespace CrossReference

open CrossReference.Tree

/-- An origin that tells of at least one hop and of no more than the limit, if it tells of hops. -/
def Origin.HopsWithin (limit : Nat) (o : Origin) : Prop :=
  ∀ hops, o = .traced hops → 1 ≤ hops ∧ hops ≤ limit

/-- The less certain of two origins tells of hops only if one of the two does. -/
theorem Origin.HopsWithin.weaker {limit : Nat} {a b : Origin} (ha : a.HopsWithin limit)
    (hb : b.HopsWithin limit) : (a.weaker b).HopsWithin limit := by
  unfold Origin.weaker
  split
  · exact hb
  · exact ha

/-- An origin that is more certain than what was followed tells of no hops. -/
theorem Origin.hopsWithin_of_rank {limit : Nat} {o : Origin} (h : 2 ≤ o.rank) :
    o.HopsWithin limit := by
  rintro hops rfl
  exact absurd h (by simp [rank])

theorem Origin.ne_untraceable_of_rank {o : Origin} (h : 2 ≤ o.rank) : o ≠ .untraceable := by
  rintro rfl
  exact absurd h (by simp [rank])

theorem Origin.weaker_ne_untraceable {a b : Origin} (ha : a ≠ .untraceable)
    (hb : b ≠ .untraceable) : a.weaker b ≠ .untraceable := by
  unfold Origin.weaker
  split
  · exact hb
  · exact ha

/-! ## Values -/

namespace Value

/-- A value whose origin says that something is known exactly if something is. -/
structure WellTraced (limit : Nat) (v : Value) : Prop where
  untraceable_iff : v.origin = .untraceable ↔ v.type = none ∧ v.text = none
  hops : v.origin.HopsWithin limit

variable {limit : Nat} {v : Value}

theorem WellTraced.origin_ne_of_type (h : v.WellTraced limit) {type : String}
    (htype : v.type = some type) : v.origin ≠ .untraceable := by
  intro hnone
  rw [(h.untraceable_iff.1 hnone).1] at htype
  exact absurd htype (by simp)

theorem WellTraced.isTraceable_eq (h : v.WellTraced limit) :
    v.origin.isTraceable = (v.type.isSome || v.text.isSome) := by
  rw [Bool.eq_iff_iff, Origin.isTraceable, decide_eq_true_iff, ne_eq, h.untraceable_iff]
  cases v.type <;> cases v.text <;> simp

/-- A value that a variable holds: a string came there by being followed. -/
structure Held (limit : Nat) (v : Value) : Prop extends v.WellTraced limit where
  traced_of_text : v.text ≠ none → ∃ hops, v.origin = .traced hops

theorem held_untraceable : untraceable.Held limit where
  untraceable_iff := by simp [untraceable]
  hops := by simp [untraceable, Origin.HopsWithin]
  traced_of_text := by simp [untraceable]

theorem wellTraced_untraceable : untraceable.WellTraced limit :=
  held_untraceable.toWellTraced

theorem held_object {type : Option String} {origin : Origin}
    (hne : ∀ name, type = some name → origin ≠ .untraceable) (hhops : origin.HopsWithin limit) :
    (object type origin).Held limit := by
  cases type with
  | none => exact held_untraceable
  | some name => exact ⟨⟨by simp [object, hne name rfl], hhops⟩, by simp [object]⟩

/-- An object whose type is told and not followed. -/
theorem held_told (type : Option String) {origin : Origin} (h : 2 ≤ origin.rank) :
    (object type origin).Held limit :=
  held_object (fun _ _ => Origin.ne_untraceable_of_rank h) (Origin.hopsWithin_of_rank h)

theorem wellTraced_object {type : Option String} {origin : Origin}
    (hne : ∀ name, type = some name → origin ≠ .untraceable) (hhops : origin.HopsWithin limit) :
    (object type origin).WellTraced limit :=
  (held_object hne hhops).toWellTraced

theorem wellTraced_told (type : Option String) {origin : Origin} (h : 2 ≤ origin.rank) :
    (object type origin).WellTraced limit :=
  (held_told type h).toWellTraced

theorem wellTraced_string {text : String} {origin : Origin} (hne : origin ≠ .untraceable)
    (hhops : origin.HopsWithin limit) : (string text origin).WellTraced limit where
  untraceable_iff := by simp [string, hne]
  hops := hhops

/-- A value that is followed through one more assignment keeps what is known of it. -/
theorem WellTraced.retrace (h : v.WellTraced limit) (hne : v.origin ≠ .untraceable) {hops : Nat}
    (hpos : 1 ≤ hops) (hle : hops ≤ limit) :
    { v with origin := .traced hops : Value }.Held limit where
  untraceable_iff := by
    have hknown := mt h.untraceable_iff.2 hne
    simpa using hknown
  hops := by
    rintro _ ⟨⟩
    exact ⟨hpos, hle⟩
  traced_of_text _ := ⟨hops, rfl⟩

theorem WellTraced.hop (h : v.WellTraced limit) : (v.hop limit).Held limit := by
  unfold Value.hop
  split
  · exact held_untraceable
  · rename_i hops horigin
    split
    · rename_i hle
      exact h.retrace (by simp [horigin]) (by omega) hle
    · exact held_untraceable
  · rename_i hne _
    split
    · rename_i hle
      exact h.retrace hne (by omega) hle
    · exact held_untraceable

end Value

/-! ## Local variables -/

namespace Locals

/-- The limit is the given one, and every stored value is one that a variable holds. -/
structure WellTraced (limit : Nat) (l : Locals) : Prop where
  hopLimit_eq : l.hopLimit = limit
  held : ∀ name v, l.values.find? name = some v → v.Held limit

variable {limit : Nat} {l : Locals}

theorem wellTraced_start : (start limit).WellTraced limit where
  hopLimit_eq := rfl
  held := by
    intro name v hfind
    have hnone : (start limit).values.find? name = none := OrderedMap.find?_empty name
    rw [hnone] at hfind
    exact absurd hfind (by simp)

theorem WellTraced.nested (h : l.WellTraced limit) : l.nested.WellTraced limit := by
  rw [Locals.nested, h.hopLimit_eq]
  exact wellTraced_start

theorem WellTraced.insert (h : l.WellTraced limit) (name : String) {v : Value}
    (hv : v.Held limit) :
    { l with values := l.values.insert name v : Locals }.WellTraced limit where
  hopLimit_eq := h.hopLimit_eq
  held := by
    intro name' v' hfind
    rw [OrderedMap.find?_insert] at hfind
    split at hfind
    · obtain rfl := Option.some.inj hfind
      exact hv
    · exact h.held name' v' hfind

theorem WellTraced.bind (h : l.WellTraced limit) (name : String) (type : Option String) :
    (l.bind name type).WellTraced limit :=
  h.insert name (Value.held_told type (by decide))

theorem WellTraced.assign (h : l.WellTraced limit) (name : String) {v : Value}
    (hv : v.WellTraced limit) : (l.assign name v).WellTraced limit := by
  have hhop : (v.hop l.hopLimit).Held limit := by
    rw [h.hopLimit_eq]
    exact hv.hop
  exact h.insert name hhop

theorem WellTraced.forget (h : l.WellTraced limit) (name : String) :
    (l.forget name).WellTraced limit :=
  h.insert name Value.held_untraceable

theorem WellTraced.document (h : l.WellTraced limit) (name type : String) :
    (l.document name type).WellTraced limit :=
  ⟨h.hopLimit_eq, h.held⟩

/-- What was last stored for a variable, whatever is documented. -/
def stored (l : Locals) (name : String) : Value :=
  (l.values.find? name).getD .untraceable

/-- Whether the type of a variable is taken from its documentation. -/
def isHinted (l : Locals) (name : String) : Bool :=
  (l.stored name).type.isNone && l.docs.contains name

/-- A documented type stands in where the stored value has none, and is trusted as declared. -/
theorem get_eq (l : Locals) (name : String) :
    l.get name =
      if l.isHinted name then
        { l.stored name with type := l.docs.find? name, origin := .annotated }
      else l.stored name := by
  unfold Locals.get
  dsimp only
  split
  · rename_i type htype hdoc
    have hhinted : l.isHinted name = true := by
      simp [isHinted, stored, OrderedMap.contains, htype, hdoc]
    rw [if_pos hhinted, hdoc]
    rfl
  · rename_i hneither
    rw [if_neg]
    · rfl
    · intro hhinted
      obtain ⟨htype, hdoc⟩ := Bool.and_eq_true_iff.1 hhinted
      obtain ⟨type, hfind⟩ := OrderedMap.contains_iff.1 hdoc
      exact hneither type (Option.isNone_iff_eq_none.1 htype) hfind

theorem WellTraced.stored (h : l.WellTraced limit) (name : String) :
    (l.stored name).Held limit := by
  unfold Locals.stored
  cases hfind : l.values.find? name with
  | none => exact Value.held_untraceable
  | some v => exact h.held name v hfind

theorem WellTraced.get (h : l.WellTraced limit) (name : String) :
    (l.get name).WellTraced limit := by
  rw [get_eq]
  split
  · rename_i hhinted
    obtain ⟨_, hdoc⟩ := Bool.and_eq_true_iff.1 hhinted
    obtain ⟨type, hfind⟩ := OrderedMap.contains_iff.1 hdoc
    exact ⟨by simp [hfind], Origin.hopsWithin_of_rank (by decide : 2 ≤ Origin.annotated.rank)⟩
  · exact (h.stored name).toWellTraced

end Locals

/-! ## Evaluation -/

namespace Resolver

variable {limit : Nat} {v : Value}

theorem wellTraced_memberValue (r : Resolver) (h : v.WellTraced limit) (name : String)
    (kind : SymbolKind) : (r.memberValue v name kind).WellTraced limit := by
  unfold memberValue
  split
  · exact Value.wellTraced_untraceable
  · rename_i type htype
    have hne := h.origin_ne_of_type htype
    exact Value.wellTraced_object (fun _ _ => Origin.weaker_ne_untraceable hne (by simp))
      (h.hops.weaker (Origin.hopsWithin_of_rank (by decide)))

theorem wellTraced_callValue (r : Resolver) (ctx : Context) (name : String) :
    (r.callValue ctx name).WellTraced limit :=
  Value.wellTraced_told _ (by decide)

theorem wellTraced_newValue (h : v.WellTraced limit) : (newValue v).WellTraced limit := by
  unfold newValue
  split
  · exact Value.wellTraced_told _ (by decide)
  · exact Value.wellTraced_object (fun _ htype => h.origin_ne_of_type htype) h.hops

theorem wellTraced_classNameValue (h : v.WellTraced limit) :
    (classNameValue v).WellTraced limit := by
  unfold classNameValue
  split
  · rename_i type htype
    exact Value.wellTraced_string (h.origin_ne_of_type htype) h.hops
  · exact Value.wellTraced_untraceable

/-- A class is denoted only by a value of which something is known. -/
theorem origin_ne_of_denotedType? (h : v.WellTraced limit) {type : String}
    (htype : denotedType? v = some type) : v.origin ≠ .untraceable := by
  intro hnone
  obtain ⟨hno, hnotext⟩ := h.untraceable_iff.1 hnone
  simp [denotedType?, hno, hnotext] at htype

variable {r : Resolver} {p : Place}

mutual

-- The evaluator goes down the expression, and each of its steps keeps the form; where it stops it
-- gives a local variable, something spelled out, a declared type, or nothing.
theorem wellTraced_value (h : p.locals.WellTraced limit) : (e : Expr) →
    (r.value p e).WellTraced limit
  | .var name _ => by
      rw [value]
      split
      · exact Value.wellTraced_told _ (by decide)
      · exact h.get name
  | .text contents _ => Value.wellTraced_string (by simp) (Origin.hopsWithin_of_rank (by decide))
  | .classConstant operand name _ => by
      rw [value]
      split
      · exact wellTraced_classNameValue (wellTraced_classValue h operand)
      · exact Value.wellTraced_untraceable
  | .new operand _ _ => wellTraced_newValue (wellTraced_classValue h operand)
  | .methodCall receiver (.ident method) _ _ _ =>
      wellTraced_memberValue r (wellTraced_value h receiver) method.text .method
  | .methodCall _ (.dynamic _) _ _ _ => Value.wellTraced_untraceable
  | .property receiver (.ident name) _ _ =>
      wellTraced_memberValue r (wellTraced_value h receiver) name.text .property
  | .property _ (.dynamic _) _ _ => Value.wellTraced_untraceable
  | .staticCall operand (.ident method) _ _ =>
      wellTraced_memberValue r (wellTraced_classValue h operand) method.text .method
  | .staticCall _ (.dynamic _) _ _ => Value.wellTraced_untraceable
  | .staticProperty operand (.ident name) _ =>
      wellTraced_memberValue r (wellTraced_classValue h operand) name.text .property
  | .staticProperty _ (.dynamic _) _ => Value.wellTraced_untraceable
  | .call (.named name) _ _ => wellTraced_callValue r p.context name.text
  | .call (.value _) _ _ => Value.wellTraced_untraceable
  | .assign _ assigned _ => wellTraced_value h assigned
  | .literal _ => Value.wellTraced_untraceable
  | .constant _ => Value.wellTraced_untraceable
  | .newAnonymous _ _ _ => Value.wellTraced_untraceable
  | .instanceOf _ _ _ => Value.wellTraced_untraceable
  | .array _ _ => Value.wellTraced_untraceable
  | .closure _ _ _ _ _ => Value.wellTraced_untraceable
  | .arrow _ _ _ _ => Value.wellTraced_untraceable
  | .compound _ _ => Value.wellTraced_untraceable

theorem wellTraced_classValue (h : p.locals.WellTraced limit) : (target : ClassRef) →
    (r.classValue p target).1.WellTraced limit
  | .named name => by
      rw [classValue]
      exact Value.wellTraced_told (some _) (by decide : 2 ≤ Origin.explicit.rank)
  | .selfType _ => Value.wellTraced_told _ (by decide)
  | .staticType _ => Value.wellTraced_told _ (by decide)
  | .parentType _ => Value.wellTraced_told _ (by decide)
  | .dynamic inner => by
      have hv := wellTraced_value h inner
      exact Value.wellTraced_object (fun _ htype => origin_ne_of_denotedType? hv htype) hv.hops

end

end Resolver

/-! ## The states of a walk -/

theorem Locals.WellTraced.bindParams {limit : Nat} {l : Locals} (h : l.WellTraced limit)
    (r : Resolver) (ctx : Context) (ps : List Param) :
    (ps.foldl (Tracker.bindParam r ctx) l).WellTraced limit := by
  induction ps generalizing l with
  | nil => exact h
  | cons p ps ih =>
      obtain ⟨name, hint, doc, default, promoted, span⟩ := p
      exact ih (h.bind name _)

namespace Tracker

/-- Each change of the walk keeps the form of the local variables. -/
theorem wellTraced_invariant (r : Resolver) (limit : Nat) :
    Invariant r (fun _ => True) fun p => p.locals.WellTraced limit where
  enterNamespace _ _ h _ := h
  addImport _ _ _ h _ := h
  enterType _ _ h _ := h
  leaveType _ h := h
  forget _ var h := h.forget var
  assign _ var e h _ := h.assign var (Resolver.wellTraced_value h e)
  bindCaught _ var _ h _ := h.bind var _
  document _ var _ type h _ _ := h.document var type
  enterFunction p ps h _ := h.nested.bindParams r p.context ps
  leaveFunction _ _ h _ := h

theorem Reached.wellTraced {r : Resolver} {limit : Nat} {ss : List Stmt} {p : Place}
    (hp : Reached r limit ss p) : p.locals.WellTraced limit :=
  (wellTraced_invariant r limit).of_reached Locals.wellTraced_start hp

/-- The values that can be read in a state: of variables, of expressions, and of what stands in the
place of a class. -/
inductive Reads (r : Resolver) (p : Place) : Value → Prop
  | ofVar (name : String) : Reads r p (p.locals.get name)
  | ofExpr (e : Expr) : Reads r p (r.value p e)
  | ofOperand (target : ClassRef) : Reads r p (r.classValue p target).1

/-- In every state of the walk over a file, a value that is read cannot be followed exactly if
neither a type nor a text is known of it. Its hops stay within the limit, so that one more still
fits in 32 bits. -/
theorem wellTraced_of_reads {r : Resolver} {limit : Nat} {ss : List Stmt} {p : Place} {v : Value}
    (hlimit : limit < UInt32.size - 1) (hp : Reached r limit ss p) (hv : Reads r p v) :
    (v.origin = .untraceable ↔ v.type = none ∧ v.text = none) ∧
      (∀ hops, v.origin = .traced hops → 1 ≤ hops ∧ hops ≤ limit ∧ hops + 1 < UInt32.size) ∧
      v.origin.isTraceable = (v.type.isSome || v.text.isSome) := by
  have hvalue : v.WellTraced limit := by
    cases hv with
    | ofVar name => exact hp.wellTraced.get name
    | ofExpr e => exact Resolver.wellTraced_value hp.wellTraced e
    | ofOperand target => exact Resolver.wellTraced_classValue hp.wellTraced target
  refine ⟨hvalue.untraceable_iff, ?_, hvalue.isTraceable_eq⟩
  intro hops horigin
  obtain ⟨hpos, hle⟩ := hvalue.hops hops horigin
  exact ⟨hpos, hle, by omega⟩

/-- `$a = 'Widget'; $b = $a; $c = $b;` -/
def relayed : List Stmt :=
  [.expr (.assign (.var "a" ⟨0, 2⟩) (.text "Widget" ⟨5, 13⟩) ⟨0, 13⟩),
    .expr (.assign (.var "b" ⟨15, 17⟩) (.var "a" ⟨20, 22⟩) ⟨15, 22⟩),
    .expr (.assign (.var "c" ⟨24, 26⟩) (.var "b" ⟨29, 31⟩) ⟨24, 31⟩)]

/-- With a limit of two, the second variable is followed up to the limit and the third is lost. -/
theorem reads_relayed :
    let r : Resolver := { catalog := ∅ }
    let p := ((stmts r relayed).run { locals := .start 2 }).2
    let v := p.locals.get "b"
    Reached r 2 relayed p ∧
      (v = { text := some "Widget", origin := .traced 2 } ∧ p.locals.get "c" = .untraceable) ∧
      (v.origin = .untraceable ↔ v.type = none ∧ v.text = none) ∧
      (∀ hops, v.origin = .traced hops → 1 ≤ hops ∧ hops ≤ 2 ∧ hops + 1 < UInt32.size) ∧
      v.origin.isTraceable = (v.type.isSome || v.text.isSome) := by
  intro r p v
  have hp : Reached r 2 relayed p := reached_end 2 relayed
  exact ⟨hp, by decide +kernel, wellTraced_of_reads (by decide) hp (.ofVar "b")⟩

end Tracker
end CrossReference
