import CrossReference.Proofs.Query.Case
import CrossReference.Scope.Resolution

/-!
# Resolution ignores the case of classes and functions

A class or function name in another case is resolved to the same, up to case. The name is compared
with keywords, aliases, declarations and builtins, and each of these comparisons folds it. What is
left of the name in the result is spelled as it was written.

* `Reading.folded` and `Resolved.folded` forget the case of the names in a reading and in a result.
* `Reading.folded_ofName` says that a name and its folded form are read alike, and
  `Resolver.folded_searchFor` that a search finds the same for candidates that differ in case.
* `Resolver.resolve_ignores_case` puts them together.
-/

namespace CrossReference

open Text (foldCase)

theorem Text.sameFolded_foldCase (a b : String) : sameFolded (foldCase a) b = sameFolded a b := by
  unfold sameFolded
  rw [foldCase_foldCase]

namespace Name

theorem relative_foldCase (name : String) : relative (foldCase name) = foldCase (relative name) :=
  Text.trimStart_foldCase ignoresCase_isSeparator name

theorem bare_foldCase (name : String) : bare (foldCase name) = foldCase (bare name) := by
  unfold bare Text.trimBoth
  rw [Text.trimStart_foldCase ignoresCase_isSeparator,
    Text.trimEnd_foldCase ignoresCase_isSeparator]

theorem splitHead?_foldCase (name : String) :
    splitHead? (foldCase name) =
      (splitHead? name).map fun (head, rest) => (foldCase head, foldCase rest) :=
  Text.splitFirst?_foldCase (by simpa using caseless_separator) name

end Name

theorem Imports.target?_foldCase (imports : Imports) {kind : NameKind} (hkind : kind ≠ .constant)
    (name : String) : imports.target? kind (foldCase name) = imports.target? kind name := by
  unfold target?
  cases kind with
  | classLike | function => simp only [aliasKey, Text.foldCase_foldCase]
  | constant => exact absurd rfl hkind

theorem Context.foldCase_qualify (ctx : Context) (name : String) :
    foldCase (ctx.qualify (foldCase name)) = foldCase (ctx.qualify name) := by
  unfold qualify
  rw [Name.relative_foldCase]
  cases ctx.currentNamespace with
  | some outer =>
      simp only [Name.foldCase_join, Text.foldCase_foldCase]
  | none => exact Text.foldCase_foldCase _

/-! ## Readings -/

namespace Reading

/-- A reading with its names folded. -/
def folded : Reading → Reading
  | definite name => definite (foldCase name)
  | search candidates => search (candidates.map foldCase)

theorem folded_ofHead? (ctx : Context) (raw : String) :
    (ofHead? ctx (foldCase raw)).map folded = (ofHead? ctx raw).map folded := by
  unfold ofHead?
  rw [Name.splitHead?_foldCase]
  cases Name.splitHead? raw with
  | none => rfl
  | some parts =>
      obtain ⟨head, rest⟩ := parts
      have htarget : ctx.imports.target? .classLike (foldCase head) =
          ctx.imports.target? .classLike head := ctx.imports.target?_foldCase (by simp) head
      simp only [Option.map_some, Text.sameFolded_foldCase, htarget]
      split
      · simp only [Option.map_some, folded, Context.foldCase_qualify]
      · simp only [Option.map_map, Function.comp_def, folded, Name.foldCase_join,
          Text.foldCase_foldCase]

/-- A name and its folded form are read alike. -/
theorem folded_ofName (ctx : Context) {kind : NameKind} (hkind : kind ≠ .constant) (raw : String) :
    (ofName ctx kind (foldCase raw)).folded = (ofName ctx kind raw).folded := by
  have hhead := folded_ofHead? ctx raw
  unfold ofName
  rw [Text.stripStart?_foldCase (by simpa using Name.caseless_separator),
    ctx.imports.target?_foldCase hkind]
  cases Text.stripStart? (String.ofList [Name.separator]) raw with
  | some absolute => exact congrArg definite (Text.foldCase_foldCase absolute)
  | none =>
      cases ctx.imports.target? kind raw with
      | some target => rfl
      | none =>
          simp only [Option.map_none]
          cases hraw : ofHead? ctx raw with
          | some reading =>
              rw [hraw, Option.map_some] at hhead
              obtain ⟨reading', hfold, heq⟩ := Option.map_eq_some_iff.1 hhead
              rw [hfold]
              exact heq
          | none =>
              rw [hraw, Option.map_none, Option.map_eq_none_iff] at hhead
              rw [hhead]
              cases ctx.currentNamespace with
              | some outer =>
                  simp only [folded, List.map_cons, List.map_nil, Context.foldCase_qualify,
                    Text.foldCase_foldCase]
              | none => simp only [folded, List.map_cons, List.map_nil, Text.foldCase_foldCase]

end Reading

/-! ## Results -/

/-- A result with its names folded. -/
def Resolved.folded : Resolved → Resolved
  | qualified name => qualified (foldCase name)
  | builtin name => builtin (foldCase name)
  | unresolved candidate => unresolved (foldCase candidate)

namespace Resolver

variable (r : Resolver) {kind : NameKind} (hkind : kind ≠ .constant)

include hkind

theorem isDeclared_foldCase (name : String) :
    r.isDeclared kind (foldCase name) = r.isDeclared kind name := by
  have hkey : Name.key (foldCase name) = Name.key name :=
    Name.key_eq_of_foldCase_eq (Text.foldCase_foldCase name)
  cases kind with
  | classLike => exact r.catalog.keyed_hasType _ _ hkey
  | function =>
      unfold isDeclared
      rw [r.catalog.keyed_lookup? rfl _ _ hkey]
  | constant => exact absurd rfl hkind

theorem isBuiltin_congr {raw raw' : String} (h : foldCase raw = foldCase raw') :
    r.isBuiltin kind raw = r.isBuiltin kind raw' := by
  have hqualified : Name.isQualified raw = Name.isQualified raw' := by
    rw [← Name.isQualified_foldCase, h, Name.isQualified_foldCase]
  unfold isBuiltin
  cases kind with
  | classLike => rw [hqualified]
  | function => rw [hqualified, h]
  | constant => exact absurd rfl hkind

theorem map_find?_isDeclared (candidates : Candidates) :
    (candidates.find? (r.isDeclared kind)).map foldCase =
      (candidates.map foldCase).find? (r.isDeclared kind) := by
  have hcomp : r.isDeclared kind ∘ foldCase = r.isDeclared kind :=
    funext (r.isDeclared_foldCase hkind)
  rw [List.find?_map, hcomp]

/-- A search finds the same for candidates that differ only in case. -/
theorem folded_searchFor {raw raw' : String} {candidates candidates' : Candidates}
    (hraw : foldCase raw = foldCase raw')
    (hcandidates : candidates.map foldCase = candidates'.map foldCase) :
    (r.searchFor kind raw candidates).folded = (r.searchFor kind raw' candidates').folded := by
  have hfound := r.map_find?_isDeclared hkind candidates
  rw [hcandidates, ← r.map_find?_isDeclared hkind] at hfound
  have hhead : ∀ (names : Candidates) (name : String),
      foldCase (names.headD name) = (names.map foldCase).headD (foldCase name) := by
    intro names name
    cases names <;> rfl
  have hfirst : foldCase (candidates.headD raw) = foldCase (candidates'.headD raw') := by
    rw [hhead, hcandidates, hraw, ← hhead]
  unfold searchFor
  rw [r.isBuiltin_congr hkind hraw]
  cases hfind : candidates.find? (r.isDeclared kind) with
  | some found =>
      rw [hfind, Option.map_some] at hfound
      obtain ⟨found', hfind', heq⟩ := Option.map_eq_some_iff.1 hfound.symm
      rw [hfind']
      exact congrArg Resolved.qualified heq.symm
  | none =>
      rw [hfind, Option.map_none] at hfound
      rw [Option.map_eq_none_iff.1 hfound.symm]
      cases r.isBuiltin kind raw' with
      | true => exact congrArg Resolved.builtin hraw
      | false => exact congrArg Resolved.unresolved hfirst

theorem folded_resolveReading (ctx : Context) (raw : String) :
    (r.resolveReading ctx kind (foldCase raw)).folded = (r.resolveReading ctx kind raw).folded := by
  have hreading := Reading.folded_ofName ctx hkind raw
  unfold resolveReading
  cases h : Reading.ofName ctx kind raw with
  | definite name =>
      cases h' : Reading.ofName ctx kind (foldCase raw) with
      | definite name' =>
          rw [h, h'] at hreading
          exact congrArg Resolved.qualified (Reading.definite.inj hreading)
      | search candidates' =>
          rw [h, h'] at hreading
          exact absurd hreading (by simp [Reading.folded])
  | search candidates =>
      cases h' : Reading.ofName ctx kind (foldCase raw) with
      | definite name' =>
          rw [h, h'] at hreading
          exact absurd hreading (by simp [Reading.folded])
      | search candidates' =>
          rw [h, h'] at hreading
          exact r.folded_searchFor hkind (Text.foldCase_foldCase raw) (Reading.search.inj hreading)

omit hkind in
theorem folded_resolveKeyword? (ctx : Context) (raw : String) :
    (r.resolveKeyword? ctx (foldCase raw)).map Resolved.folded =
      (r.resolveKeyword? ctx raw).map Resolved.folded := by
  have hraw : some (Resolved.unresolved (foldCase raw)).folded =
      some (Resolved.unresolved raw).folded :=
    congrArg (some ∘ Resolved.unresolved) (Text.foldCase_foldCase raw)
  unfold resolveKeyword? Name.isSelfKeyword Name.isParentKeyword
  simp only [Text.sameFolded_foldCase]
  split
  · cases r.selfType? ctx with
    | some type => rfl
    | none => exact hraw
  · split
    · cases r.parentType? ctx with
      | some type => rfl
      | none => exact hraw
    · rfl

theorem folded_resolve (ctx : Context) (raw : String) :
    (r.resolve ctx kind (foldCase raw)).folded = (r.resolve ctx kind raw).folded := by
  have hbare : Name.bare (foldCase raw) = "" ↔ Name.bare raw = "" := by
    rw [Name.bare_foldCase, Text.foldCase_eq_empty_iff]
  have hreading := r.folded_resolveReading hkind ctx raw
  unfold resolve
  by_cases hraw : Name.bare raw = ""
  · rw [if_pos hraw, if_pos (hbare.2 hraw)]
    exact congrArg Resolved.unresolved (Text.foldCase_foldCase raw)
  · rw [if_neg hraw, if_neg (mt hbare.1 hraw)]
    cases kind with
    | classLike =>
        simp only [← Option.getD_map Resolved.folded, folded_resolveKeyword?, hreading]
    | function => exact hreading
    | constant => exact absurd rfl hkind

end Resolver

/-- Resolution ignores the case of class and function names: with any declarations and builtins and
at any place, two spellings that differ only in the case of ASCII letters have results of the same
form, and the names in the results differ only in case. -/
theorem Resolver.resolve_ignores_case (r : Resolver) (ctx : Context) {kind : NameKind}
    (hkind : kind = .classLike ∨ kind = .function) {raw raw' : String}
    (hcase : Text.sameFolded raw raw' = true) :
    (r.resolve ctx kind raw).folded = (r.resolve ctx kind raw').folded := by
  have hkind : kind ≠ .constant := by
    rintro rfl
    exact absurd hkind (by simp)
  rw [← r.folded_resolve hkind ctx raw, Text.sameFolded_iff.1 hcase, r.folded_resolve hkind]

/-- A class of the current namespace and a builtin are found in capitals, too. -/
theorem Resolver.shape_resolved_in_capitals :
    let r : Resolver :=
      { catalog := .after [.declare (.ofName (.type .classDecl) "App\\Shape" ⟨0⟩)]
        builtins := { functions := ["strlen"] } }
    let ctx := Context.inNamespace "App"
    r.resolve ctx .classLike "shape" = .qualified "App\\shape" ∧
      (r.resolve ctx .classLike "shape").folded = (r.resolve ctx .classLike "SHAPE").folded ∧
      r.resolve ctx .function "StrLen" = .builtin "StrLen" ∧
      (r.resolve ctx .function "StrLen").folded = (r.resolve ctx .function "STRLEN").folded := by
  intro r ctx
  exact ⟨by decide +kernel, r.resolve_ignores_case ctx (.inl rfl) (by decide +kernel),
    by decide +kernel, r.resolve_ignores_case ctx (.inr rfl) (by decide +kernel)⟩

end CrossReference
