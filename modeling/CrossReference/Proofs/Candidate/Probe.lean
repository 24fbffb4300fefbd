import CrossReference.Proofs.Candidate.Reached

/-!
# Files that reach a type

Each way to reach a type without a word is turned into a file that lacks the word and has a site of
the type. The file holds one test of an object against an expression of the type; the expression
stands at the top of the file or in the body of a class, where keywords have a meaning.

* `Probe.name_resolve_spelling`: every name has a spelling that stands for it everywhere.
* `Probe.exists_reaches`: every type that is reached without a word is the type of an expression
  that does not mention the word.
* `Probe.exists_site_without` puts the expression into a file.
-/

namespace CrossReference

open CrossReference.Tree

namespace Probe

/-! ## Spelling a name out -/

/-- `name` with a separator in front. -/
def absolute (name : String) : String :=
  String.ofList (Name.separator :: name.toList)

theorem toList_absolute (name : String) : (absolute name).toList = Name.separator :: name.toList :=
  String.toList_ofList

/-- A spelling of `name` that no import and no namespace changes. -/
def spelling (name : String) : String :=
  if Name.bare name = "" then name else absolute name

theorem bare_absolute (name : String) : Name.bare (absolute name) = Name.bare name := by
  have hstart : Text.trimStart Name.isSeparator (absolute name) =
      Text.trimStart Name.isSeparator name := by
    simp [Text.trimStart, toList_absolute, Name.isSeparator]
  unfold Name.bare Text.trimBoth
  rw [hstart]

theorem sameFolded_absolute (name keyword : String)
    (h : (keyword.toList.map Char.toLower).head? ≠ some Name.separator) :
    Text.sameFolded (absolute name) keyword = false := by
  rw [Bool.eq_false_iff, ne_eq, Text.sameFolded_iff]
  intro heq
  have hlist := congrArg (List.head? ∘ String.toList) heq
  simp only [Function.comp_apply, Text.toList_foldCase, toList_absolute, List.map_cons,
    List.head?_cons] at hlist
  exact h hlist.symm

/-- The spelling stands for the name, wherever it is written and whatever is declared. -/
theorem name_resolve_spelling (r : Resolver) (ctx : Context) (kind : NameKind) (name : String) :
    (r.resolve ctx kind (spelling name)).name = name := by
  unfold spelling
  split
  · rename_i hbare
    simp [Resolver.resolve, hbare, Resolved.name]
  · rename_i hbare
    have hkeyword : r.resolveKeyword? ctx (absolute name) = none := by
      have hself := sameFolded_absolute name "self" (by decide)
      have hstatic := sameFolded_absolute name "static" (by decide)
      have hparent := sameFolded_absolute name "parent" (by decide)
      simp [Resolver.resolveKeyword?, Name.isSelfKeyword, Name.isParentKeyword, hself, hstatic,
        hparent]
    have hreading : r.resolveReading ctx kind (absolute name) = .qualified name := by
      simp [Resolver.resolveReading, Reading.ofName, Text.stripStart?, toList_absolute]
    unfold Resolver.resolve
    rw [bare_absolute, if_neg hbare]
    cases kind <;> simp [hkeyword, hreading, Resolved.name]

theorem lacks_spelling {word name : String} (hword : Name.separator ∉ word.toList) (hne : word ≠ "")
    (h : Patterns.containsFolded name word = false) :
    Patterns.containsFolded (spelling name) word = false := by
  unfold spelling
  split
  · exact h
  · have hjoint := Patterns.containsFolded_append_separator hword hne "" name
    rw [Bool.eq_false_iff, ne_eq]
    intro hfound
    rcases hjoint.1 hfound with hfound | hfound
    · simp [Patterns.containsFolded_empty hne] at hfound
    · simp [h] at hfound

/-! ## Expressions of a given type -/

/-- Where the expression of a probe stands: at the top of a file, or in the body of a class. -/
inductive Scope where
  | file
  | classBody (name : String)
  | anonymousBody

namespace Scope

/-- The types that enclose the expression. -/
def enclosing : Scope → List String
  | file => []
  | classBody name => [Name.relative name]
  | anonymousBody => [Tracker.anonymousClass]

/-- What is in force where the expression stands. -/
def place (scope : Scope) (hopLimit : Nat) : Place where
  context := { enclosing := scope.enclosing }
  locals := .start hopLimit

/-- A class body with the expression as the value of a constant. -/
def body (e : Expr) : List Member :=
  [.constant ⟨"", default⟩ .everyone e]

/-- The statements of a file with the expression in it. -/
def around : Scope → Expr → List Stmt
  | file, e => [.expr e]
  | classBody name, e => [.classLike (.mk .classDecl (some ⟨name, default⟩) [] [] (body e))]
  | anonymousBody, e => [.expr (.newAnonymous (.mk .classDecl none [] [] (body e)) [] default)]

/-- The name of the enclosing class, if it is spelled out, lacks `word`. -/
def Lacks (word : String) : Scope → Prop
  | classBody name => Patterns.containsFolded name word = false
  | _ => True

end Scope

/-- `e` is an object of the type `name` without any assignment, and it does not mention `word`. -/
structure Reaches (r : Resolver) (hopLimit : Nat) (word : String) (scope : Scope) (e : Expr)
    (name : String) : Prop where
  type_eq : (r.value (scope.place hopLimit) e).type = some name
  text_eq : (r.value (scope.place hopLimit) e).text = none
  traceable : (r.value (scope.place hopLimit) e).origin.isTraceable = true
  still : ((Tracker.expr r .read e).run (scope.place hopLimit)).2 = scope.place hopLimit
  lacks : ∀ m ∈ Mentions.expr e, ∀ text, m.text? = some text →
    Patterns.containsFolded text word = false

section Reaches

variable {r : Resolver} {hopLimit : Nat} {word : String} {scope : Scope}

/-- A new object of a class that is named or that a keyword stands for. -/
theorem reaches_new (target : ClassRef) {name : String}
    (htype : (r.classValue (scope.place hopLimit) target).1.type = some name)
    (horigin : (r.classValue (scope.place hopLimit) target).1.origin.isTraceable = true)
    (hstill : Tracker.operand r target = .skip)
    (hlacks : ∀ m ∈ Mentions.operand target, ∀ text, m.text? = some text →
      Patterns.containsFolded text word = false) :
    Reaches r hopLimit word scope (.new target [] default) name where
  type_eq := by
    rw [Resolver.value]
    simp [Resolver.newValue, htype, Value.object]
  text_eq := by
    rw [Resolver.value]
    simp [Resolver.newValue, htype, Value.object]
  traceable := by
    rw [Resolver.value]
    simp only [Resolver.newValue, htype, Value.object]
    split
    · rfl
    · exact horigin
  still := by
    simp [Tracker.expr, Tracker.exprs, Walk.inOrder, Walk.andThen_run, hstill, Tracker.refer]
  lacks := by
    simpa [Mentions.expr, Mentions.exprs] using hlacks

theorem reaches_parent {name : String}
    (h : scope.enclosing.head?.bind r.catalog.parentOf? = some name) :
    Reaches r hopLimit word scope (.new (.parentType default) [] default) name := by
  have hvalue : (r.classValue (scope.place hopLimit) (.parentType default)).1 =
      { type := some name, origin := .selfRef } := by
    simp [Resolver.classValue, Resolver.parentType?, Context.currentType?, Scope.place, h,
      Value.object]
  apply reaches_new
  · rw [hvalue]
  · rw [hvalue]
    rfl
  · rfl
  · simp [Mentions.operand]

theorem isTraceable_weaker {origin : Origin} (h : origin.isTraceable = true) :
    (origin.weaker .annotated).isTraceable = true := by
  unfold Origin.weaker
  split
  · rfl
  · exact h

/-- An access to a method or a property of an object. -/
def memberOf (kind : SymbolKind) (e : Expr) (member : String) : Expr :=
  match kind with
  | .method => .methodCall e (.ident ⟨member, default⟩) [] false default
  | _ => .property e (.ident ⟨member, default⟩) false default

theorem Reaches.member {e : Expr} {type member name : String} {kind : SymbolKind} {s : Symbol}
    (he : Reaches r hopLimit word scope e type) (hkind : kind = .method ∨ kind = .property)
    (hmember : Patterns.containsFolded member word = false)
    (hs : r.catalog.findMember? type member kind = some s)
    (hname : s.types.head?.bind r.catalog.resolve? = some name) :
    Reaches r hopLimit word scope (memberOf kind e member) name := by
  have hvalue : r.value (scope.place hopLimit) (memberOf kind e member) =
      { type := some name,
        origin := (r.value (scope.place hopLimit) e).origin.weaker .annotated } := by
    have hmemberValue : r.value (scope.place hopLimit) (memberOf kind e member) =
        r.memberValue (r.value (scope.place hopLimit) e) member kind := by
      rcases hkind with rfl | rfl <;> simp only [memberOf, Resolver.value]
    rw [hmemberValue]
    simp [Resolver.memberValue, he.type_eq, hs, Resolver.declaredType?, hname, Value.object]
  constructor
  · rw [hvalue]
  · rw [hvalue]
  · rw [hvalue]
    exact isTraceable_weaker he.traceable
  · rcases hkind with rfl | rfl <;>
      simp [memberOf, Tracker.expr, Tracker.exprs, Tracker.memberName, Walk.inOrder,
        Walk.andThen_run, Tracker.refer, he.still]
  · have hmentions : Mentions.expr (memberOf kind e member) =
        Mentions.expr e ++ [.word member] := by
      rcases hkind with rfl | rfl <;>
        simp [memberOf, Mentions.expr, Mentions.memberName, Mentions.exprs]
    rw [hmentions, List.forall_mem_append, List.forall_mem_singleton]
    refine ⟨he.lacks, fun text htext => ?_⟩
    obtain rfl := Option.some.inj htext
    exact hmember

theorem reaches_call {function name : String} {s : Symbol}
    (hfunction : Patterns.containsFolded (spelling function) word = false)
    (hs : r.catalog.lookup? .function function = some s)
    (hname : s.types.head?.bind r.catalog.resolve? = some name) :
    Reaches r hopLimit word scope (.call (.named ⟨spelling function, default⟩) [] default)
      name := by
  have hvalue : r.value (scope.place hopLimit)
      (.call (.named ⟨spelling function, default⟩) [] default) =
      { type := some name, origin := .annotated } := by
    rw [Resolver.value]
    simp [Resolver.callValue, name_resolve_spelling, hs, Resolver.declaredType?, hname,
      Value.object]
  constructor
  · rw [hvalue]
  · rw [hvalue]
  · rw [hvalue]
    rfl
  · simp [Tracker.expr, Tracker.exprs, Walk.inOrder, Walk.andThen_run, Tracker.refer]
  · intro m hm text htext
    obtain rfl : m = .word (spelling function) := by
      simpa [Mentions.expr, Mentions.exprs] using hm
    obtain rfl := Option.some.inj htext
    exact hfunction

/-- Each way to reach a type without `word` is an expression of that type which does not mention
`word`. -/
theorem exists_reaches (r : Resolver) (hopLimit : Nat) (hword : Name.separator ∉ word.toList)
    (hne : word ≠ "") {name : String} (h : r.catalog.ReachedWithout word name) :
    ∃ scope e, scope.Lacks word ∧ Reaches r hopLimit word scope e name := by
  induction h with
  -- Keywords have a meaning only inside a class, so the scope depends on the way.
  | @named name hname =>
      refine ⟨.file, _, trivial, reaches_new (.named ⟨spelling name, default⟩) ?_ rfl rfl ?_⟩
      · simp [Resolver.classValue, Value.object, name_resolve_spelling]
      · intro m hm text htext
        obtain rfl : m = .className (spelling name) := by simpa [Mentions.operand] using hm
        obtain rfl := Option.some.inj htext
        exact lacks_spelling hword hne hname
  | anonymous =>
      exact ⟨.anonymousBody, _, trivial,
        reaches_new (.selfType default) rfl rfl rfl (by simp [Mentions.operand])⟩
  | parentOf htype hparent =>
      rcases htype with hlacks | rfl
      · refine ⟨.classBody _, _, hlacks, reaches_parent ?_⟩
        simpa [Scope.enclosing] using hparent
      · refine ⟨.anonymousBody, _, trivial, reaches_parent ?_⟩
        simpa [Scope.enclosing] using hparent
  | returnedBy hfunction hs hname =>
      exact ⟨.file, _, trivial, reaches_call (lacks_spelling hword hne hfunction) hs hname⟩
  | memberOf _ hmember hkind hs hname ih =>
      obtain ⟨scope, e, hscope, he⟩ := ih
      exact ⟨scope, _, hscope, he.member hkind hmember hs hname⟩

end Reaches

/-! ## Files around an expression -/

/-- The words of a list, each with a separator after it. -/
def spread (words : List String) : String :=
  String.ofList (words.flatMap fun word => word.toList ++ [Name.separator])

theorem spread_cons (first : String) (words : List String) :
    spread (first :: words) =
      String.ofList (first.toList ++ Name.separator :: (spread words).toList) := by
  simp [spread]

theorem contains_spread {words : List String} {word : String} (h : word ∈ words) :
    Text.contains (spread words) word = true := by
  rw [Text.contains_iff, spread, String.toList_ofList]
  obtain ⟨before, after, rfl⟩ := List.append_of_mem h
  exact ⟨before.flatMap fun word => word.toList ++ [Name.separator],
    Name.separator :: after.flatMap fun word => word.toList ++ [Name.separator], by simp⟩

theorem lacks_spread {word : String} (hword : Name.separator ∉ word.toList) (hne : word ≠ "")
    {words : List String} (h : ∀ w ∈ words, Patterns.containsFolded w word = false) :
    Patterns.containsFolded (spread words) word = false := by
  induction words with
  | nil => exact Patterns.containsFolded_empty hne
  | cons first words ih =>
      rw [List.forall_mem_cons] at h
      rw [spread_cons, Bool.eq_false_iff, ne_eq,
        Patterns.containsFolded_append_separator hword hne]
      simp [h.1, ih h.2]

/-- A file that tests an object against the type of `e`. Its text is what its tree mentions. -/
def file (scope : Scope) (e : Expr) : SourceFile :=
  let stmts := scope.around (.instanceOf (.literal default) (.dynamic e) default)
  { path := "probe"
    text := spread ((Mentions.stmts stmts).filterMap Mention.text?)
    tree := some stmts }

theorem isFaithful_file (scope : Scope) (e : Expr) : (file scope e).IsFaithful :=
  fun _ h => contains_spread h

theorem mentions_around {scope : Scope} {e : Expr} {m : Mention}
    (h : m ∈ Mentions.stmts (scope.around e)) :
    m ∈ Mentions.expr e ∨ m = .word "" ∨ ∃ name, scope = .classBody name ∧ m = .className name := by
  cases scope with
  | file => exact .inl (by simpa [Scope.around, Mentions.stmts, Mentions.stmt] using h)
  | classBody name =>
      have hm : m = .className name ∨ m = .word "" ∨ m ∈ Mentions.expr e := by
        simpa [Scope.around, Scope.body, Mentions.stmts, Mentions.stmt, Mentions.classDecl,
          Mentions.members, Mentions.member, Mentions.classNames] using h
      rcases hm with hm | hm | hm
      · exact .inr (.inr ⟨name, rfl, hm⟩)
      · exact .inr (.inl hm)
      · exact .inl hm
  | anonymousBody =>
      have hm : m = .word "" ∨ m ∈ Mentions.expr e := by
        simpa [Scope.around, Scope.body, Mentions.stmts, Mentions.stmt, Mentions.expr,
          Mentions.exprs, Mentions.classDecl, Mentions.members, Mentions.member,
          Mentions.classNames] using h
      rcases hm with hm | hm
      · exact .inr (.inl hm)
      · exact .inl hm

theorem lacks_file {word : String} (hword : Name.separator ∉ word.toList) (hne : word ≠ "")
    {scope : Scope} (hscope : scope.Lacks word) {e : Expr}
    (he : ∀ m ∈ Mentions.expr e, ∀ text, m.text? = some text →
      Patterns.containsFolded text word = false) :
    Patterns.containsFolded (file scope e).text word = false := by
  apply lacks_spread hword hne
  intro text htext
  obtain ⟨m, hm, htext⟩ := List.mem_filterMap.1 htext
  rcases mentions_around hm with hm | rfl | ⟨name, rfl, rfl⟩
  · exact he m (by simpa [Mentions.expr, Mentions.operand] using hm) text htext
  · obtain rfl := Option.some.inj htext
    exact Patterns.containsFolded_empty hne
  · obtain rfl := Option.some.inj htext
    exact hscope

/-- The walk comes to the expression at the place of its scope. -/
theorem mem_eventsOf_around {r : Resolver} {hopLimit : Nat} {scope : Scope} {e : Expr}
    {event : Event} (h : event ∈ ((Tracker.expr r .read e).run (scope.place hopLimit)).1) :
    event ∈ eventsOf r hopLimit (scope.around e) := by
  unfold eventsOf
  -- In each scope the walk enters the enclosing class, if any, and comes to the expression.
  cases scope with
  | file =>
      have hplace : Scope.file.place hopLimit = { locals := .start hopLimit } := rfl
      rw [hplace] at h
      simpa [Scope.around, Tracker.stmts, Tracker.stmt, Walk.andThen_run] using h
  | classBody name =>
      have hplace : (Scope.classBody name).place hopLimit =
          { context := Context.pushType ∅ (Context.qualify ∅ name),
            locals := .start hopLimit } := rfl
      rw [hplace] at h
      simp [Scope.around, Scope.body, Tracker.stmts, Tracker.stmt, Walk.andThen_run,
        Tracker.classDecl, Tracker.clause, Walk.each, Walk.inOrder, Tracker.typeBody,
        Tracker.members, Tracker.member, Tracker.changeContext, Tracker.refer, h]
  | anonymousBody =>
      have hplace : Scope.anonymousBody.place hopLimit =
          { context := Context.pushType ∅ Tracker.anonymousClass,
            locals := .start hopLimit } := rfl
      rw [hplace] at h
      simp [Scope.around, Scope.body, Tracker.stmts, Tracker.stmt, Tracker.expr, Tracker.exprs,
        Walk.andThen_run, Tracker.classDecl, Tracker.clause, Walk.each, Walk.inOrder,
        Tracker.typeBody, Tracker.members, Tracker.member, Tracker.changeContext, Tracker.refer, h]

/-- A file around an expression of the type `name` has a site of every type of that name. -/
theorem sites_file_ne_nil {c : Catalog} {settings : Settings} {word subject name : String}
    {scope : Scope} {e : Expr}
    (he : Reaches { catalog := c, builtins := settings.builtins } settings.hopLimit word scope e
      name)
    (hsame : Name.same name subject = true) :
    (Search.ofQuery c settings (.type subject)).sites (file scope e).stmts ≠ [] := by
  let search := Search.ofQuery c settings (.type subject)
  let event : Event :=
    { place := scope.place settings.hopLimit, reference := .operand (.dynamic e) .typePosition }
  have hevent : event ∈ eventsOf search.resolver settings.hopLimit (file scope e).stmts := by
    apply mem_eventsOf_around
    have hstill : ((Tracker.expr search.resolver .read e).run
      (scope.place settings.hopLimit)).2 = scope.place settings.hopLimit := he.still
    simp [Tracker.expr, Tracker.operand, Walk.inOrder, Walk.andThen_run, Tracker.refer, hstill,
      event]
  have hdenoted : Resolver.denotedType?
      (search.resolver.value (scope.place settings.hopLimit) e) = some name := by
    have htype : (search.resolver.value (scope.place settings.hopLimit) e).type = some name :=
      he.type_eq
    have htext : (search.resolver.value (scope.place settings.hopLimit) e).text = none := he.text_eq
    simp [Resolver.denotedType?, htype, htext]
  have htraceable : (search.resolver.value (scope.place settings.hopLimit) e).origin.isTraceable =
      true := he.traceable
  obtain ⟨site, hsite⟩ : ∃ site, search.site? event = some site := by
    change ∃ site, search.dynamicClassSite? (scope.place settings.hopLimit) e .typePosition =
      some site
    simp [Search.dynamicClassSite?, show search.query = .type subject from rfl, hdenoted,
      htraceable, hsame]
  apply List.ne_nil_of_mem
  exact List.mem_filterMap.2 ⟨event, hevent, by rw [hsite]; rfl⟩

/-- A type that is reached without the last part of its name has a site in some faithful file
without that part. -/
theorem exists_site_without {c : Catalog} (settings : Settings) {word subject name : String}
    (hword : Name.separator ∉ word.toList) (hne : word ≠ "") (h : c.ReachedWithout word name)
    (hsame : Name.same name subject = true) :
    ∃ f : SourceFile, f.IsFaithful ∧ Patterns.containsFolded f.text word = false ∧
      (Search.ofQuery c settings (.type subject)).sites f.stmts ≠ [] := by
  obtain ⟨scope, e, hscope, he⟩ := exists_reaches
    { catalog := c, builtins := settings.builtins } settings.hopLimit hword hne h
  exact ⟨file scope e, isFaithful_file scope e, lacks_file hword hne hscope he.lacks,
    sites_file_ne_nil he hsame⟩

end Probe

end CrossReference
