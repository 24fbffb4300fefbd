import CrossReference.Proofs.Name
import CrossReference.Proofs.OrderedMap
import CrossReference.Proofs.Text.Assembly
import CrossReference.Scope.Resolution
import Mathlib.Data.List.Induction

/-!
# Names that their surroundings decide

An absolute name, an alias, and a name whose first part is an alias or the word `namespace` stand
for one qualified name, whatever is declared. Which name that is can be read off the changes of the
context alone: an alias stands for the most recent import of it, and entering a namespace ends all
imports.

* `Context.importOf?` and `Context.namespaceOf?` read imports and namespace off the changes;
  `Context.target?_after` and `Context.currentNamespace_after` find the same in the context.
* `Context.Decided` lists the cases in the order in which they are tried, and
  `Reading.ofName_of_decided` says that a name is definite in each of them.
* `Resolver.decided_whatever_is_declared` is the result for every catalog and all builtins.
-/

namespace CrossReference

/-! ## The changes of a context -/

/-- Equality of aliases of one family. Only constants keep their case. -/
def NameKind.sameAlias (kind : NameKind) (a b : String) : Bool :=
  match kind with
  | .constant => a == b
  | .classLike | .function => Text.sameFolded a b

/-- An import as it is written. -/
structure Import where
  kind : NameKind
  name : String
  target : String
deriving DecidableEq

/-- Whether the import has `name` as its alias. -/
def Import.names (i : Import) (kind : NameKind) (name : String) : Bool :=
  i.kind = kind && kind.sameAlias i.name name

namespace Context

/-- A change of what is in force. -/
inductive Change where
  | enterNamespace (name : Option String)
  | addImport (i : Import)
  | pushType (name : String)
  | popType

/-- What is in force after a change. -/
def apply (ctx : Context) : Change → Context
  | .enterNamespace name => ctx.enterNamespace name
  | .addImport i => ctx.addImport i.kind i.name i.target
  | .pushType name => ctx.pushType name
  | .popType => ctx.popType

/-- What is in force after a sequence of changes from the start of a file. -/
def after (changes : List Change) : Context :=
  changes.foldl apply ∅

/-- The namespace that a change enters, as it is written. -/
def Change.entered? : Change → Option (Option String)
  | .enterNamespace name => some name
  | _ => none

/-- The import that a change makes. -/
def Change.import? : Change → Option Import
  | .addImport i => some i
  | _ => none

/-- The imports since a namespace was entered last, the most recent first. -/
def importsInForce (changes : List Change) : List Import :=
  (changes.reverse.takeWhile (·.entered?.isNone)).filterMap Change.import?

/-- The most recent of the imports in force that have `name` as their alias. -/
def importOf? (changes : List Change) (kind : NameKind) (name : String) : Option Import :=
  (importsInForce changes).find? (·.names kind name)

/-- The namespace that was entered last, without separators at its ends; `none` is the global one.
-/
def namespaceOf? (changes : List Change) : Option String :=
  ((changes.reverse.findSome? Change.entered?).join.map Name.bare).filter (· ≠ "")

end Context

/-! ## What is in force -/

theorem NameKind.sameAlias_iff {kind : NameKind} {a b : String} :
    kind.sameAlias a b = true ↔ Imports.aliasKey kind a = Imports.aliasKey kind b := by
  cases kind <;> simp [sameAlias, Imports.aliasKey, Text.sameFolded_iff]

namespace Imports

theorem family_add (imports : Imports) (kind family : NameKind) (name target : String) :
    (imports.add kind name target).family family =
      if kind = family then
        (imports.family family).insert (aliasKey family name) (Name.relative target)
      else
        imports.family family := by
  cases kind <;> cases family <;> rfl

/-- An alias stands for the import that was added last, if that has it. -/
theorem target?_add (imports : Imports) (i : Import) (kind : NameKind) (name : String) :
    (imports.add i.kind i.name i.target).target? kind name =
      if i.names kind name then some (Name.relative i.target) else imports.target? kind name := by
  unfold target?
  rw [family_add]
  by_cases hkind : i.kind = kind
  · have hnames : i.names kind name = true ↔ aliasKey kind name = aliasKey kind i.name := by
      rw [Import.names, decide_eq_true hkind, Bool.true_and, NameKind.sameAlias_iff, eq_comm]
    rw [if_pos hkind, OrderedMap.find?_insert]
    exact if_congr hnames.symm rfl rfl
  · have hnames : i.names kind name = false := by simp [Import.names, hkind]
    rw [if_neg hkind, hnames]
    rfl

end Imports

namespace Context

theorem after_concat (changes : List Change) (change : Change) :
    after (changes ++ [change]) = (after changes).apply change := by
  unfold after
  rw [List.foldl_append]
  rfl

theorem importOf?_concat (changes : List Change) (change : Change) (kind : NameKind)
    (name : String) :
    importOf? (changes ++ [change]) kind name =
      if change.entered?.isSome then none
      else (change.import?.filter (·.names kind name)).or (importOf? changes kind name) := by
  unfold importOf? importsInForce
  rw [List.reverse_concat, List.takeWhile_cons]
  cases change with
  | enterNamespace entered => rfl
  | addImport i =>
      simp only [Change.entered?, Change.import?, Option.isNone_none, if_true,
        List.filterMap_cons, List.find?_cons, Option.filter_some]
      cases i.names kind name <;> rfl
  | pushType type => rfl
  | popType => rfl

/-- The target of an alias is that of the most recent import of it. -/
theorem target?_after (changes : List Change) (kind : NameKind) (name : String) :
    (after changes).imports.target? kind name =
      (importOf? changes kind name).map fun i => Name.relative i.target := by
  induction changes using List.reverseRecOn with
  | nil => cases kind <;> rfl
  | append_singleton changes change ih =>
      rw [after_concat, importOf?_concat]
      cases change with
      | enterNamespace entered => cases kind <;> rfl
      | addImport i =>
          have hadd := (after changes).imports.target?_add i kind name
          rw [ih] at hadd
          refine hadd.trans ?_
          simp only [Change.entered?, Change.import?, Option.filter_some]
          cases i.names kind name <;> rfl
      | pushType type => exact ih
      | popType => exact ih

theorem currentNamespace_after (changes : List Change) :
    (after changes).currentNamespace = namespaceOf? changes := by
  induction changes using List.reverseRecOn with
  | nil => rfl
  | append_singleton changes change ih =>
      unfold namespaceOf? at ih ⊢
      rw [after_concat, List.reverse_concat]
      cases change with
      | enterNamespace entered => rfl
      | addImport i => exact ih
      | pushType type => exact ih
      | popType => exact ih

/-! ## Decided names -/

/-- `name` inside the namespace that was entered last. -/
def withinNamespace (changes : List Change) (name : String) : String :=
  match namespaceOf? changes with
  | some outer => Name.join outer (Name.relative name)
  | none => Name.relative name

theorem qualify_after (changes : List Change) (name : String) :
    (after changes).qualify name = withinNamespace changes name := by
  unfold qualify withinNamespace
  cases hnamespace : namespaceOf? changes with
  | some outer => simp only [currentNamespace_after, hnamespace]
  | none => simp only [currentNamespace_after, hnamespace]

end Context

theorem Name.bare_ne_empty {name : String} (h : ∃ c ∈ name.toList, c ≠ separator) :
    bare name ≠ "" := by
  obtain ⟨c, hc, hne⟩ := h
  obtain ⟨before, after, hbefore, hafter, hname⟩ := Text.exists_trimBoth isSeparator name
  intro hbare
  unfold bare at hbare
  rw [hname, hbare, String.append_empty, String.toList_append] at hc
  have hsep : isSeparator c = true := by
    rcases List.mem_append.1 hc with hc | hc
    · exact hbefore c hc
    · exact hafter c hc
  exact hne (beq_iff_eq.1 hsep)

/-- `name` is cut at its first separator into `head` and `rest`. -/
structure Name.HasHead (name head rest : String) : Prop where
  eq_join : name = join head rest
  plain : separator ∉ head.toList

theorem Name.splitHead?_eq_some_iff {name head rest : String} :
    splitHead? name = some (head, rest) ↔ HasHead name head rest := by
  unfold splitHead?
  rw [Text.splitFirst?_eq_some_iff, ← toList_join, String.toList_inj]
  exact ⟨fun h => ⟨h.1, h.2⟩, fun h => ⟨h.eq_join, h.plain⟩⟩

namespace Context

/-- What `raw` stands for if its surroundings decide it. The first case that applies counts. -/
inductive Decided (changes : List Change) (kind : NameKind) (raw : String) : String → Prop where
  /-- The name begins with a separator. -/
  | absolute {rest : String} (h : raw = String.ofList [Name.separator] ++ rest) :
      Decided changes kind raw rest
  /-- The name is an alias of its own family. -/
  | imported {i : Import} (hrelative : ∀ rest, raw ≠ String.ofList [Name.separator] ++ rest)
      (h : importOf? changes kind raw = some i) : Decided changes kind raw (Name.relative i.target)
  /-- The name begins with the word `namespace`. -/
  | inNamespace {head rest : String}
      (hrelative : ∀ rest, raw ≠ String.ofList [Name.separator] ++ rest)
      (hplain : importOf? changes kind raw = none) (hparts : Name.HasHead raw head rest)
      (h : Text.sameFolded head "namespace" = true) :
      Decided changes kind raw (withinNamespace changes rest)
  /-- The name begins with a class alias. -/
  | throughAlias {head rest : String} {i : Import}
      (hrelative : ∀ rest, raw ≠ String.ofList [Name.separator] ++ rest)
      (hplain : importOf? changes kind raw = none) (hparts : Name.HasHead raw head rest)
      (hhead : Text.sameFolded head "namespace" = false)
      (h : importOf? changes .classLike head = some i) :
      Decided changes kind raw (Name.join (Name.relative i.target) rest)

/-- Some import in force has `name` as its alias. -/
def IsAlias (changes : List Change) (kind : NameKind) (name : String) : Prop :=
  ∃ i ∈ importsInForce changes, i.names kind name = true

theorem isAlias_iff {changes : List Change} {kind : NameKind} {name : String} :
    IsAlias changes kind name ↔ ∃ i, importOf? changes kind name = some i := by
  unfold IsAlias importOf?
  rw [← Option.isSome_iff_exists, List.find?_isSome]

/-- One of the cases applies to a name that is absolute, an alias, or begins with an alias or with
the word `namespace`. -/
theorem exists_decided {changes : List Change} {kind : NameKind} {raw : String}
    (h : (∃ rest, raw = String.ofList [Name.separator] ++ rest) ∨ IsAlias changes kind raw ∨
      ∃ head rest, Name.HasHead raw head rest ∧
        (Text.sameFolded head "namespace" = true ∨ IsAlias changes .classLike head)) :
    ∃ name, Decided changes kind raw name := by
  by_cases habsolute : ∃ rest, raw = String.ofList [Name.separator] ++ rest
  · obtain ⟨rest, hrest⟩ := habsolute
    exact ⟨rest, .absolute hrest⟩
  · have hrelative := not_exists.1 habsolute
    cases himport : importOf? changes kind raw with
    | some i => exact ⟨_, .imported hrelative himport⟩
    | none =>
        rcases h with h | h | ⟨head, rest, hparts, h⟩
        · exact absurd h habsolute
        · obtain ⟨i, hi⟩ := isAlias_iff.1 h
          exact absurd (himport.symm.trans hi) (by simp)
        · cases hhead : Text.sameFolded head "namespace" with
          | true => exact ⟨_, .inNamespace hrelative himport hparts hhead⟩
          | false =>
              have halias := h.resolve_left (by simp [hhead])
              obtain ⟨i, hi⟩ := isAlias_iff.1 halias
              exact ⟨_, .throughAlias hrelative himport hparts hhead hi⟩

end Context

namespace Reading

open Context (Change Decided)

variable {changes : List Change} {kind : NameKind} {raw : String}

/-- A name that its surroundings decide is definite. -/
theorem ofName_of_decided {name : String} (h : Decided changes kind raw name) :
    ofName (.after changes) kind raw = definite name := by
  unfold ofName
  cases h with
  | absolute h => rw [Text.stripStart?_eq_some_iff.2 h]
  | imported hrelative h =>
      rw [Text.stripStart?_eq_none_iff.2 hrelative, Context.target?_after, h]
      rfl
  | inNamespace hrelative hplain hparts h =>
      rw [Text.stripStart?_eq_none_iff.2 hrelative, Context.target?_after, hplain, ofHead?,
        Name.splitHead?_eq_some_iff.2 hparts, ← Context.qualify_after]
      simp only [Option.map_none, h, if_true]
  | throughAlias hrelative hplain hparts hhead h =>
      rw [Text.stripStart?_eq_none_iff.2 hrelative, Context.target?_after, hplain, ofHead?,
        Name.splitHead?_eq_some_iff.2 hparts]
      simp only [Option.map_none, hhead, Context.target?_after, h, Option.map_some]
      rfl

end Reading

/-- There is always something that a name may stand for. -/
theorem Context.candidates_ne_nil (ctx : Context) (kind : NameKind) (raw : String) :
    ctx.candidates kind raw ≠ [] := by
  have hhead : ∀ reading, Reading.ofHead? ctx raw = some reading → reading.candidates ≠ [] := by
    intro reading h
    unfold Reading.ofHead? at h
    split at h
    · exact absurd h (by simp)
    · split at h
      · simp [← Option.some.inj h, Reading.candidates]
      · obtain ⟨target, _, rfl⟩ := Option.map_eq_some_iff.1 h
        simp [Reading.candidates]
  unfold candidates Reading.ofName
  split
  · simp [Reading.candidates]
  · split
    · simp [Reading.candidates]
    · split
      · rename_i reading hreading
        exact hhead reading hreading
      · split <;> simp [Reading.candidates]

namespace Resolver

theorem resolve_eq_resolveReading (r : Resolver) (ctx : Context) {kind : NameKind} {raw : String}
    (hraw : Name.bare raw ≠ "")
    (hkeyword : kind = .classLike →
      Name.isSelfKeyword raw = false ∧ Name.isParentKeyword raw = false) :
    r.resolve ctx kind raw = r.resolveReading ctx kind raw := by
  unfold resolve
  rw [if_neg hraw]
  cases kind with
  | classLike =>
      obtain ⟨hself, hparent⟩ := hkeyword rfl
      simp [resolveKeyword?, hself, hparent]
  | function | constant => rfl

/-- Absolute names, aliases, and names that begin with an alias or with the word `namespace` stand
for one qualified name, whatever is declared and whatever the builtins are. After any changes of the
context, take a name that is not made of separators only and, among class names, none that stands
for a type of its surroundings. If it is such a name, then one of the cases decides it, and what the
first case gives is what the name is resolved to. -/
theorem decided_whatever_is_declared (changes : List Context.Change) (kind : NameKind)
    (raw : String) (hraw : ∃ c ∈ raw.toList, c ≠ Name.separator)
    (hkeyword : kind = .classLike →
      Name.isSelfKeyword raw = false ∧ Name.isParentKeyword raw = false)
    (hcase : (∃ rest, raw = String.ofList [Name.separator] ++ rest) ∨
      Context.IsAlias changes kind raw ∨
      ∃ head rest, Name.HasHead raw head rest ∧
        (Text.sameFolded head "namespace" = true ∨ Context.IsAlias changes .classLike head)) :
    (∃ name, Context.Decided changes kind raw name) ∧
      ∀ name, Context.Decided changes kind raw name →
        ∀ r : Resolver, r.resolve (.after changes) kind raw = .qualified name := by
  refine ⟨Context.exists_decided hcase, ?_⟩
  intro name hname r
  rw [resolve_eq_resolveReading r _ (Name.bare_ne_empty hraw) hkeyword, resolveReading,
    Reading.ofName_of_decided hname]

/-- A file with two namespaces that imports one alias three times. -/
def page : List Context.Change :=
  [.enterNamespace (some "Old"), .addImport ⟨.classLike, "Models", "Old\\Models"⟩,
    .enterNamespace (some "\\App"), .addImport ⟨.classLike, "Models", "Draft\\Models"⟩,
    .pushType "App\\Page", .addImport ⟨.classLike, "MODELS", "\\Domain\\Models"⟩, .popType]

/-- A function whose name begins with the alias is found through the last import of it. -/
theorem page_models_decided :
    Context.importOf? page .classLike "models" =
        some ⟨.classLike, "MODELS", "\\Domain\\Models"⟩ ∧
      Context.namespaceOf? page = some "App" ∧
      ∀ r : Resolver, r.resolve (.after page) .function "models\\create" =
        .qualified "Domain\\Models\\create" := by
  have himport : Context.importOf? page .classLike "models" =
      some ⟨.classLike, "MODELS", "\\Domain\\Models"⟩ := by
    decide +kernel
  have hplain : Context.importOf? page .function "models\\create" = none := by decide +kernel
  have hparts : Name.HasHead "models\\create" "models" "create" := ⟨by decide, by decide⟩
  have hrelative : ∀ rest, "models\\create" ≠ String.ofList [Name.separator] ++ rest := by
    intro rest h
    simpa [Name.separator] using congrArg (fun s : String => s.toList.head?) h
  have halias : Context.IsAlias page .classLike "models" :=
    Context.isAlias_iff.2 ⟨_, himport⟩
  obtain ⟨_, hdecided⟩ := decided_whatever_is_declared page .function "models\\create"
    ⟨'m', by decide, by decide⟩ (by decide) (.inr (.inr ⟨_, _, hparts, .inr halias⟩))
  refine ⟨himport, by decide +kernel, ?_⟩
  exact hdecided _ (.throughAlias hrelative hplain hparts (by decide +kernel) himport)

end Resolver
end CrossReference
