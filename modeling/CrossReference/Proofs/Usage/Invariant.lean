import CrossReference.Proofs.Tree.Mentions
import CrossReference.Proofs.Walk
import CrossReference.Usage.Event

/-!
# Invariants of the walk over a file

A property of places that survives each single change of the walk holds at every node that the walk
meets. The changes may rely on what the tree mentions: `Tracker.Invariant r A I` says that `I`
survives every change made for a piece of a tree whose mentions all satisfy `A`.

* `Tracker.keeps_stmts` is the induction over the tree, with one case for each kind of node.
* `Tracker.Invariant.of_mem_eventsOf` draws the conclusion for the events of a file.
-/

namespace CrossReference

open CrossReference.Tree

def Receiver.mentions : Receiver → List Mention
  | .object value => Mentions.expr value
  | .type target => Mentions.operand target

/-- What a node mentions. -/
def Reference.mentions : Reference → List Mention
  | .imported kind name => [.ofName kind name]
  | .typeName name _ => [.className name.text]
  | .operand target _ => Mentions.operand target
  | .construction target => Mentions.operand target
  | .call name args => .word name.text :: Mentions.exprs args
  | .callValue callee => Mentions.expr callee
  | .member receiver name _ _ => receiver.mentions ++ Mentions.memberName name
  | .constant name => [.word name.text]
  | .typeBody => []

/-- An event at a place with `I`, whose node mentions nothing but what satisfies `A`. -/
structure Event.Within (A : Mention → Prop) (I : Place → Prop) (e : Event) : Prop where
  place : I e.place
  mentions : ∀ m ∈ e.reference.mentions, A m

namespace Tracker

/-- The name of a type while its body is walked. -/
def bodyName (ctx : Context) : Option Word → String
  | some word => ctx.qualify word.text
  | none => anonymousClass

/-- `I` survives each change that the walk makes for pieces whose mentions satisfy `A`. -/
structure Invariant (r : Resolver) (A : Mention → Prop) (I : Place → Prop) : Prop where
  enterNamespace : ∀ (p : Place) (name : Option Word), I p →
    (∀ w, name = some w → A (.namespaceName w.text)) →
    I { p with context := p.context.enterNamespace (name.map Word.text) }
  addImport : ∀ (p : Place) (kind : NameKind) (item : ImportItem), I p →
    A (.ofName kind item.name) →
    I { p with context := p.context.addImport kind item.localName item.name.text }
  enterType : ∀ (p : Place) (name : Option Word), I p →
    (∀ w, name = some w → A (.className w.text)) →
    I { p with context := p.context.pushType (bodyName p.context name) }
  leaveType : ∀ p : Place, I p → I { p with context := p.context.popType }
  forget : ∀ (p : Place) (var : String), I p → I { p with locals := p.locals.forget var }
  assign : ∀ (p : Place) (var : String) (e : Expr), I p → (∀ m ∈ Mentions.expr e, A m) →
    I { p with locals := p.locals.assign var (r.value p e) }
  bindCaught : ∀ (p : Place) (var : String) (types : List Word), I p →
    (∀ m ∈ Mentions.classNames types, A m) →
    I { p with locals := p.locals.bind var (types.head?.bind (r.namedType? p.context)) }
  document : ∀ (p : Place) (var : String) (hint : TypeHint) (type : String), I p →
    (∀ m ∈ Mentions.classNames hint.names, A m) → r.hintType? p.context hint = some type →
    I { p with locals := p.locals.document var type }
  enterFunction : ∀ (p : Place) (ps : List Param), I p → (∀ m ∈ Mentions.params ps, A m) →
    I { p with locals := ps.foldl (bindParam r p.context) p.locals.nested }
  leaveFunction : ∀ before after : Place, I before → I after →
    I { after with locals := before.locals }

section Keeps

variable {r : Resolver} {A : Mention → Prop} {I : Place → Prop}

theorem keeps_refer (reference : Reference) (h : ∀ m ∈ reference.mentions, A m) :
    (refer reference).Keeps I (Event.Within A I) :=
  Walk.keeps_meet fun _ hp => ⟨hp, h⟩

/-- Several class names that are met in the same way. -/
theorem keeps_typeNames {names : List Word} {role : UsageKind}
    (h : ∀ m ∈ Mentions.classNames names, A m) :
    (Walk.each (fun name => refer (.typeName name role)) names).Keeps I (Event.Within A I) := by
  apply Walk.keeps_each
  intro name hname
  apply keeps_refer
  simpa [Reference.mentions] using h _ (List.mem_map_of_mem hname)

theorem keeps_typeHint? {hint : Option TypeHint} (h : ∀ m ∈ Mentions.typeHint? hint, A m) :
    (typeHint? hint).Keeps I (Event.Within A I) := by
  cases hint with
  | none => exact Walk.keeps_skip
  | some hint => exact keeps_typeNames h

theorem keeps_enterNamespace (hI : Invariant r A I) (name : Option Word)
    (h : ∀ m ∈ (name.map fun w => Mention.namespaceName w.text).toList, A m) :
    (changeContext (·.enterNamespace (name.map Word.text))).Keeps I (Event.Within A I) := by
  apply Walk.keeps_change
  intro p hp
  apply hI.enterNamespace p name hp
  rintro w rfl
  exact h _ (by simp)

theorem keeps_importAll (hI : Invariant r A I) {kind : NameKind} {items : List ImportItem}
    (h : ∀ m ∈ items.flatMap (Mentions.importItem kind), A m) :
    (importAll kind items).Keeps I (Event.Within A I) := by
  apply Walk.keeps_each
  intro item hitem
  have hname : A (.ofName kind item.name) :=
    h _ (List.mem_flatMap.2 ⟨item, hitem, List.mem_cons_self⟩)
  refine Walk.Keeps.andThen (Walk.keeps_change ?_) (keeps_refer (.imported kind item.name) ?_)
  · intro p hp
    exact hI.addImport p kind item hp hname
  · simpa [Reference.mentions] using hname

theorem keeps_typeBody (hI : Invariant r A I) {name : Option Word} {body : Tracker}
    (h : ∀ m ∈ (name.map fun w => Mention.className w.text).toList, A m)
    (hbody : body.Keeps I (Event.Within A I)) :
    (typeBody name body).Keeps I (Event.Within A I) := by
  have henter : (changeContext fun ctx => ctx.pushType (bodyName ctx name)).Keeps I
      (Event.Within A I) := by
    apply Walk.keeps_change
    intro p hp
    apply hI.enterType p name hp
    rintro w rfl
    exact h _ (by simp)
  have hleave : (changeContext Context.popType).Keeps I (Event.Within A I) :=
    Walk.keeps_change hI.leaveType
  have hstart : (refer .typeBody).Keeps I (Event.Within A I) :=
    keeps_refer .typeBody (by simp [Reference.mentions])
  have hall := henter.andThen (hstart.andThen (hbody.andThen (hleave.andThen Walk.keeps_skip)))
  -- `bodyName` is the name that `typeBody` chooses.
  cases name with
  | none => exact hall
  | some w => exact hall

theorem forget_all (hI : Invariant r A I) (vars : List String) {p : Place} (hp : I p) :
    I { p with locals := vars.foldl Locals.forget p.locals } := by
  induction vars generalizing p with
  | nil => exact hp
  | cons var vars ih => exact ih (hI.forget p var hp)

theorem keeps_functionBody (hI : Invariant r A I) {ps : List Param} {captured : List String}
    {body : Tracker} (h : ∀ m ∈ Mentions.params ps, A m)
    (hbody : body.Keeps I (Event.Within A I)) :
    (functionBody r ps captured body).Keeps I (Event.Within A I) := by
  refine hbody.within ?_ hI.leaveFunction
  intro p hp
  exact forget_all hI captured (hI.enterFunction p ps hp h)

theorem keeps_assign (hI : Invariant r A I) {var : String} {e : Expr}
    (h : ∀ m ∈ Mentions.expr e, A m) : (assign r var e).Keeps I (Event.Within A I) := by
  unfold assign
  split
  · exact Walk.keeps_skip
  · exact Walk.keeps_change fun p hp => hI.assign p var e hp h

theorem keeps_bindCaught (hI : Invariant r A I) {types : List Word} {var : Option String}
    (h : ∀ m ∈ Mentions.classNames types, A m) :
    (bindCaught r types var).Keeps I (Event.Within A I) := by
  cases var with
  | none => exact Walk.keeps_skip
  | some var => exact Walk.keeps_change fun p hp => hI.bindCaught p var types hp h

theorem keeps_document (hI : Invariant r A I) {var : String} {hint : TypeHint}
    (h : ∀ m ∈ Mentions.classNames hint.names, A m) :
    (document r var hint).Keeps I (Event.Within A I) := by
  apply Walk.keeps_change
  intro p hp
  split
  · rename_i type htype
    exact hI.document p var hint type hp h htype
  · exact hp

end Keeps

/-! ## The induction over the tree -/

section Induction

variable {r : Resolver} {A : Mention → Prop} {I : Place → Prop}

mutual

-- Each case goes along the walk: what the parts of a node keep, the node keeps. The mentions of a
-- node are those of its parts, so the hypothesis splits in the same way.
theorem keeps_expr (hI : Invariant r A I) (mode : Mode) : (e : Expr) →
    (∀ m ∈ Mentions.expr e, A m) →
    (expr r mode e).Keeps I (Event.Within A I)
  | .var name _, _ => by
      cases mode with
      | read => exact Walk.keeps_skip
      | write => exact Walk.keeps_change fun p hp => hI.forget p name hp
  | .text _ _, _ => Walk.keeps_skip
  | .literal _, _ => Walk.keeps_skip
  | .constant name, h => keeps_refer (.constant name) h
  | .new target args _, h => by
      simp only [Mentions.expr, List.forall_mem_append] at h
      have hnew := keeps_refer (I := I) (.operand target .instantiation) h.1
      have hconstruct := keeps_refer (I := I) (.construction target) h.1
      exact (keeps_operand hI target h.1).andThen (hnew.andThen
        (hconstruct.andThen ((keeps_exprs hI .read args h.2).andThen Walk.keeps_skip)))
  | .newAnonymous decl args _, h => by
      simp only [Mentions.expr, List.forall_mem_append] at h
      exact (keeps_exprs hI .read args h.1).andThen
        ((keeps_classDecl hI decl h.2).andThen Walk.keeps_skip)
  | .call (.named name) args _, h => by
      have hargs : ∀ m ∈ Mentions.exprs args, A m := (List.forall_mem_cons.1 h).2
      exact (keeps_refer (.call name args) h).andThen
        ((keeps_exprs hI .read args hargs).andThen Walk.keeps_skip)
  | .call (.value callee) args _, h => by
      simp only [Mentions.expr, List.forall_mem_append] at h
      exact (keeps_expr hI .read callee h.1).andThen ((keeps_refer (.callValue callee) h.1).andThen
        ((keeps_exprs hI .read args h.2).andThen Walk.keeps_skip))
  | .methodCall receiver method args nullsafe _, h => by
      simp only [Mentions.expr, List.forall_mem_append] at h
      obtain ⟨⟨hreceiver, hmethod⟩, hargs⟩ := h
      have hrefer := keeps_refer (I := I)
        (.member (.object receiver) method .instanceMethod nullsafe)
        (List.forall_mem_append.2 ⟨hreceiver, hmethod⟩)
      exact (keeps_expr hI .read receiver hreceiver).andThen
        ((keeps_memberName hI method hmethod).andThen
          (hrefer.andThen ((keeps_exprs hI .read args hargs).andThen Walk.keeps_skip)))
  | .property receiver name nullsafe _, h => by
      have hparts := List.forall_mem_append.1 h
      have hrefer := keeps_refer (I := I)
        (.member (.object receiver) name .instanceProperty nullsafe) h
      exact (keeps_expr hI .read receiver hparts.1).andThen
        ((keeps_memberName hI name hparts.2).andThen (hrefer.andThen Walk.keeps_skip))
  | .staticCall target method args _, h => by
      simp only [Mentions.expr, List.forall_mem_append] at h
      obtain ⟨⟨htarget, hmethod⟩, hargs⟩ := h
      have hclass := keeps_refer (I := I) (.operand target .staticMemberAccess) htarget
      have hrefer := keeps_refer (I := I) (.member (.type target) method .staticMethod false)
        (List.forall_mem_append.2 ⟨htarget, hmethod⟩)
      exact (keeps_operand hI target htarget).andThen (hclass.andThen
        ((keeps_memberName hI method hmethod).andThen (hrefer.andThen
          ((keeps_exprs hI .read args hargs).andThen Walk.keeps_skip))))
  | .staticProperty target name _, h => by
      have hparts := List.forall_mem_append.1 h
      have hclass := keeps_refer (I := I) (.operand target .staticMemberAccess) hparts.1
      have hrefer := keeps_refer (I := I) (.member (.type target) name .staticProperty false) h
      exact (keeps_operand hI target hparts.1).andThen (hclass.andThen
        ((keeps_memberName hI name hparts.2).andThen (hrefer.andThen Walk.keeps_skip)))
  | .classConstant target name _, h => by
      have htarget := (List.forall_mem_append.1 h).1
      -- The name of the class itself is no member of it.
      have hmember : (if Text.sameFolded name.text "class" then .skip
          else refer (.member (.type target) (.ident name) .constant false)).Keeps I
          (Event.Within A I) := by
        split
        · exact Walk.keeps_skip
        · exact keeps_refer (.member (.type target) (.ident name) .constant false) h
      have hclass := keeps_refer (I := I) (.operand target .constantAccess) htarget
      exact (keeps_operand hI target htarget).andThen (hclass.andThen
        (hmember.andThen Walk.keeps_skip))
  | .instanceOf subject target _, h => by
      simp only [Mentions.expr, List.forall_mem_append] at h
      have hrefer := keeps_refer (I := I) (.operand target .typePosition) h.2
      exact (keeps_expr hI .read subject h.1).andThen ((keeps_operand hI target h.2).andThen
        (hrefer.andThen Walk.keeps_skip))
  | .assign target assigned _, h => by
      simp only [Mentions.expr, List.forall_mem_append] at h
      obtain ⟨htarget, hassigned⟩ := h
      rw [expr]
      refine (keeps_expr hI .read assigned hassigned).andThen (.andThen ?_ Walk.keeps_skip)
      -- A variable takes the value; any other target is walked as a target.
      split
      · exact keeps_assign hI hassigned
      · exact keeps_expr hI .write target htarget
  | .array items _, h => keeps_exprs hI mode items h
  | .closure ps captured returns body _, h => by
      simp only [Mentions.expr, List.forall_mem_append] at h
      obtain ⟨⟨hps, hreturns⟩, hbody⟩ := h
      exact (keeps_params hI ps hps).andThen ((keeps_typeHint? hreturns).andThen
        ((keeps_functionBody hI hps (keeps_stmts hI body hbody)).andThen Walk.keeps_skip))
  | .arrow ps returns body _, h => by
      simp only [Mentions.expr, List.forall_mem_append] at h
      obtain ⟨⟨hps, hreturns⟩, hbody⟩ := h
      exact (keeps_params hI ps hps).andThen ((keeps_typeHint? hreturns).andThen
        ((keeps_functionBody hI hps (keeps_expr hI .read body hbody)).andThen Walk.keeps_skip))
  | .compound children _, h => keeps_exprs hI .read children h

theorem keeps_exprs (hI : Invariant r A I) (mode : Mode) : (es : List Expr) →
    (∀ m ∈ Mentions.exprs es, A m) →
    (exprs r mode es).Keeps I (Event.Within A I)
  | [], _ => Walk.keeps_skip
  | e :: es, h => by
      have hparts := List.forall_mem_append.1 h
      exact (keeps_expr hI mode e hparts.1).andThen (keeps_exprs hI mode es hparts.2)

theorem keeps_expr? (hI : Invariant r A I) (mode : Mode) : (e : Option Expr) →
    (∀ m ∈ Mentions.expr? e, A m) →
    (expr? r mode e).Keeps I (Event.Within A I)
  | none, _ => Walk.keeps_skip
  | some e, h => keeps_expr hI mode e h

theorem keeps_operand (hI : Invariant r A I) : (target : ClassRef) →
    (∀ m ∈ Mentions.operand target, A m) →
    (operand r target).Keeps I (Event.Within A I)
  | .named _, _ => Walk.keeps_skip
  | .selfType _, _ => Walk.keeps_skip
  | .staticType _, _ => Walk.keeps_skip
  | .parentType _, _ => Walk.keeps_skip
  | .dynamic e, h => keeps_expr hI .read e h

theorem keeps_memberName (hI : Invariant r A I) : (name : MemberName) →
    (∀ m ∈ Mentions.memberName name, A m) →
    (memberName r name).Keeps I (Event.Within A I)
  | .ident _, _ => Walk.keeps_skip
  | .dynamic e, h => keeps_expr hI .read e (List.forall_mem_cons.1 h).2

theorem keeps_params (hI : Invariant r A I) : (ps : List Param) →
    (∀ m ∈ Mentions.params ps, A m) →
    (params r ps).Keeps I (Event.Within A I)
  | [], _ => Walk.keeps_skip
  | .mk _ hint doc default _ _ :: ps, h => by
      simp only [Mentions.params, List.forall_mem_append] at h
      -- A documented type is bound in the body but not walked here.
      obtain ⟨⟨⟨hhint, _⟩, hdefault⟩, hps⟩ := h
      exact (keeps_typeHint? hhint).andThen ((keeps_expr? hI .read default hdefault).andThen
        ((keeps_params hI ps hps).andThen Walk.keeps_skip))

theorem keeps_classDecl (hI : Invariant r A I) : (decl : ClassDecl) →
    (∀ m ∈ Mentions.classDecl decl, A m) →
    (classDecl r decl).Keeps I (Event.Within A I)
  | .mk _ name parents interfaces ms, h => by
      simp only [Mentions.classDecl, List.forall_mem_append] at h
      obtain ⟨⟨⟨hname, hparents⟩, hinterfaces⟩, hms⟩ := h
      exact (keeps_typeNames hparents).andThen ((keeps_typeNames hinterfaces).andThen
        ((keeps_typeBody hI hname (keeps_members hI ms hms)).andThen Walk.keeps_skip))

theorem keeps_members (hI : Invariant r A I) : (ms : List Member) →
    (∀ m ∈ Mentions.members ms, A m) →
    (members r ms).Keeps I (Event.Within A I)
  | [], _ => Walk.keeps_skip
  | m :: ms, h => by
      have hparts := List.forall_mem_append.1 h
      exact (keeps_member hI m hparts.1).andThen (keeps_members hI ms hparts.2)

theorem keeps_member (hI : Invariant r A I) : (member : Member) →
    (∀ m ∈ Mentions.member member, A m) →
    (Tracker.member r member).Keeps I (Event.Within A I)
  | .method _ _ _ ps returns body, h => by
      simp only [Mentions.member, List.forall_mem_cons, List.forall_mem_append] at h
      obtain ⟨_, ⟨hps, hreturns⟩, hbody⟩ := h
      exact (keeps_params hI ps hps).andThen ((keeps_typeHint? hreturns).andThen
        ((keeps_functionBody hI hps (keeps_stmts hI body hbody)).andThen Walk.keeps_skip))
  | .property _ _ _ hint doc default, h => by
      simp only [Mentions.member, List.forall_mem_cons, List.forall_mem_append] at h
      obtain ⟨_, ⟨hhint, _⟩, hdefault⟩ := h
      exact (keeps_typeHint? hhint).andThen
        ((keeps_expr? hI .read default hdefault).andThen Walk.keeps_skip)
  | .constant _ _ e, h => keeps_expr hI .read e (List.forall_mem_cons.1 h).2
  | .enumCase _ e, h => keeps_expr? hI .read e (List.forall_mem_cons.1 h).2
  | .traitUse _, h => keeps_typeNames h

theorem keeps_stmt (hI : Invariant r A I) : (s : Stmt) →
    (∀ m ∈ Mentions.stmt s, A m) →
    (stmt r s).Keeps I (Event.Within A I)
  | .namespaceLine name, h => keeps_enterNamespace hI name h
  | .namespaceBlock name body, h => by
      have hparts := List.forall_mem_append.1 h
      have hleave : (changeContext (·.enterNamespace none)).Keeps I (Event.Within A I) :=
        keeps_enterNamespace hI none (by simp)
      exact (keeps_enterNamespace hI name hparts.1).andThen ((keeps_stmts hI body hparts.2).andThen
        (hleave.andThen Walk.keeps_skip))
  | .imports _ _, h => keeps_importAll hI h
  | .classLike decl, h => keeps_classDecl hI decl h
  | .function _ ps returns body, h => by
      simp only [Mentions.stmt, List.forall_mem_cons, List.forall_mem_append] at h
      obtain ⟨_, ⟨hps, hreturns⟩, hbody⟩ := h
      exact (keeps_params hI ps hps).andThen ((keeps_typeHint? hreturns).andThen
        ((keeps_functionBody hI hps (keeps_stmts hI body hbody)).andThen Walk.keeps_skip))
  | .constants items, h => keeps_constItems hI items h
  | .expr e, h => keeps_expr hI .read e h
  | .returned e, h => keeps_expr? hI .read e h
  | .echo es, h => keeps_exprs hI .read es h
  | .branch cond thenBody elseBody, h => by
      simp only [Mentions.stmt, List.forall_mem_append] at h
      exact (keeps_expr hI .read cond h.1.1).andThen ((keeps_stmts hI thenBody h.1.2).andThen
        ((keeps_stmts hI elseBody h.2).andThen Walk.keeps_skip))
  | .loop header body, h => by
      have hparts := List.forall_mem_append.1 h
      exact (keeps_exprs hI .read header hparts.1).andThen
        ((keeps_stmts hI body hparts.2).andThen Walk.keeps_skip)
  | .forEach subject key element body, h => by
      simp only [Mentions.stmt, List.forall_mem_append] at h
      obtain ⟨⟨⟨hsubject, hkey⟩, helement⟩, hbody⟩ := h
      exact (keeps_expr hI .read subject hsubject).andThen ((keeps_expr? hI .write key hkey).andThen
        ((keeps_expr hI .write element helement).andThen
          ((keeps_stmts hI body hbody).andThen Walk.keeps_skip)))
  | .attempt body catches cleanup, h => by
      simp only [Mentions.stmt, List.forall_mem_append] at h
      exact (keeps_stmts hI body h.1.1).andThen ((keeps_catchClauses hI catches h.1.2).andThen
        ((keeps_stmts hI cleanup h.2).andThen Walk.keeps_skip))
  | .block body, h => keeps_stmts hI body h
  | .varDoc _ _, h => keeps_document hI h
  | .globals vars, _ => Walk.keeps_change fun _ hp => forget_all hI vars hp

theorem keeps_stmts (hI : Invariant r A I) : (ss : List Stmt) →
    (∀ m ∈ Mentions.stmts ss, A m) →
    (stmts r ss).Keeps I (Event.Within A I)
  | [], _ => Walk.keeps_skip
  | s :: ss, h => by
      have hparts := List.forall_mem_append.1 h
      exact (keeps_stmt hI s hparts.1).andThen (keeps_stmts hI ss hparts.2)

theorem keeps_constItems (hI : Invariant r A I) : (items : List ConstItem) →
    (∀ m ∈ Mentions.constItems items, A m) →
    (constItems r items).Keeps I (Event.Within A I)
  | [], _ => Walk.keeps_skip
  | .mk _ e :: items, h => by
      simp only [Mentions.constItems, List.forall_mem_cons, List.forall_mem_append] at h
      exact (keeps_expr hI .read e h.2.1).andThen (keeps_constItems hI items h.2.2)

theorem keeps_catchClauses (hI : Invariant r A I) : (catches : List Catch) →
    (∀ m ∈ Mentions.catchClauses catches, A m) →
    (catchClauses r catches).Keeps I (Event.Within A I)
  | [], _ => Walk.keeps_skip
  | .mk types var body :: catches, h => by
      simp only [Mentions.catchClauses, List.forall_mem_append] at h
      obtain ⟨⟨htypes, hbody⟩, hcatches⟩ := h
      exact (keeps_typeNames htypes).andThen ((keeps_bindCaught hI htypes).andThen
        ((keeps_stmts hI body hbody).andThen
          ((keeps_catchClauses hI catches hcatches).andThen Walk.keeps_skip)))

end

end Induction

/-- Every event of a file is at a place with the invariant. -/
theorem Invariant.of_mem_eventsOf {r : Resolver} {A : Mention → Prop} {I : Place → Prop}
    (hI : Invariant r A I) {hopLimit : Nat} {ss : List Stmt}
    (hstart : I { locals := .start hopLimit }) (h : ∀ m ∈ Mentions.stmts ss, A m) {e : Event}
    (he : e ∈ eventsOf r hopLimit ss) : e.Within A I :=
  (keeps_stmts hI ss h _ hstart).2 e he

end Tracker
end CrossReference
