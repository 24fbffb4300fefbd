import CrossReference.Declaration.Collect
import CrossReference.Proofs.Walk

/-!
# What a file declares

The declarations that are collected from a file do not depend on the number of the file, but for the
number that each symbol carries: `Declarations.collect_eq_inFile`.
-/

namespace CrossReference

open CrossReference.Tree

/-- A symbol as one of another file. -/
def Symbol.inFile (id : FileId) (s : Symbol) : Symbol :=
  { s with file := id }

/-- A declaration as one of another file. -/
def Declared.inFile (id : FileId) : Declared → Declared
  | symbol s => symbol (s.inFile id)
  | clause c => clause c

/-- The number of the file has no part in the other fields of a symbol. -/
theorem Symbol.ofName_eq (kind : SymbolKind) (qualified : String) :
    ∃ name owner, ∀ file, ofName kind qualified file =
      { name := name, qualifiedName := qualified, kind := kind, file := file, owner := owner } := by
  unfold ofName
  split
  · split
    · exact ⟨_, _, fun _ => rfl⟩
    · exact ⟨_, none, fun _ => rfl⟩
  · exact ⟨_, none, fun _ => rfl⟩

theorem Symbol.inFile_ofName (id : FileId) (kind : SymbolKind) (qualified : String)
    (file : FileId) : (ofName kind qualified file).inFile id = ofName kind qualified id := by
  obtain ⟨name, owner, heq⟩ := ofName_eq kind qualified
  rw [heq, heq]
  rfl

@[simp] theorem Symbol.qualifiedName_ofName (kind : SymbolKind) (qualified : String)
    (file : FileId) : (ofName kind qualified file).qualifiedName = qualified := by
  obtain ⟨name, owner, heq⟩ := ofName_eq kind qualified
  rw [heq]

@[simp] theorem Symbol.file_ofName (kind : SymbolKind) (qualified : String) (file : FileId) :
    (ofName kind qualified file).file = file := by
  obtain ⟨name, owner, heq⟩ := ofName_eq kind qualified
  rw [heq]

@[simp] theorem Symbol.kind_ofName (kind : SymbolKind) (qualified : String) (file : FileId) :
    (ofName kind qualified file).kind = kind := by
  obtain ⟨name, owner, heq⟩ := ofName_eq kind qualified
  rw [heq]

namespace Declarations

/-! ## The number of the file -/

namespace Site

variable (site : Site) (id : FileId)

/-- The same lines in another file. -/
def inFile : Site :=
  { site with file := id }

theorem symbol_inFile (kind : SymbolKind) (qualified : String) (span : Span) :
    (site.inFile id).symbol kind qualified span = (site.symbol kind qualified span).inFile id := by
  unfold symbol
  rw [show (site.inFile id).file = id from rfl, ← Symbol.inFile_ofName id kind qualified site.file]
  rfl

theorem clause_inFile (ctx : Context) (child : String) (relation : Relation) (parent : Word) :
    (site.inFile id).clause ctx child relation parent = site.clause ctx child relation parent := rfl

theorem function_inFile (ctx : Context) (name : Word) (returns : Option TypeHint) :
    (site.inFile id).function ctx name returns = (site.function ctx name returns).inFile id := by
  unfold function
  rw [symbol_inFile]
  rfl

theorem classLike_inFile (ctx : Context) (kind : ClassKind) (name : Word) (members : List Member) :
    (site.inFile id).classLike ctx kind name members =
      (site.classLike ctx kind name members).inFile id := by
  unfold classLike
  rw [symbol_inFile]
  rfl

theorem method_inFile (ctx : Context) (owner : String) (name : Word) (visibility : Visibility)
    (isStatic : Bool) (returns : Option TypeHint) :
    (site.inFile id).method ctx owner name visibility isStatic returns =
      (site.method ctx owner name visibility isStatic returns).inFile id := by
  unfold method
  rw [symbol_inFile]
  rfl

theorem promotedIn_inFile (ctx : Context) (owner method : String) (params : List Param) :
    (site.inFile id).promotedIn ctx owner method params =
      (site.promotedIn ctx owner method params).map (Symbol.inFile id) := by
  have hparams : (site.inFile id).promoted? ctx owner =
      fun p => (site.promoted? ctx owner p).map (Symbol.inFile id) := by
    funext ⟨name, hint, doc, default, promoted, span⟩
    unfold promoted?
    rw [Option.map_map]
    refine congrArg (Option.map · promoted) ?_
    funext visibility
    rw [symbol_inFile]
    rfl
  unfold promotedIn
  split
  · rw [List.map_filterMap, hparams]
  · rfl

theorem property_inFile (ctx : Context) (owner : String) (name : Word) (visibility : Visibility)
    (isStatic : Bool) (hint doc : Option TypeHint) :
    (site.inFile id).property ctx owner name visibility isStatic hint doc =
      (site.property ctx owner name visibility isStatic hint doc).inFile id := by
  unfold property
  rw [symbol_inFile]
  rfl

theorem constant_inFile (owner : String) (name : Word) (visibility : Visibility) :
    (site.inFile id).constant owner name visibility =
      (site.constant owner name visibility).inFile id := by
  unfold constant
  rw [symbol_inFile]
  rfl

theorem enumCase_inFile (owner : String) (name : Word) :
    (site.inFile id).enumCase owner name = (site.enumCase owner name).inFile id := by
  unfold enumCase
  rw [symbol_inFile]
  rfl

end Site

mutual

theorem collectStmt_inFile (site : Site) (id : FileId) : (s : Stmt) →
    collectStmt (site.inFile id) s = (collectStmt site s).map (Declared.inFile id)
  | .namespaceLine _ => rfl
  | .namespaceBlock _ body => by
      simp [collectStmt, collectStmts_inFile site id body]
  | .imports _ _ => rfl
  | .classLike decl => by
      simpa [collectStmt] using collectClass_inFile site id decl
  | .function name _ returns body => by
      simp [collectStmt, Site.function_inFile, collectStmts_inFile site id body, Declared.inFile]
  | .constants items => by
      simpa [collectStmt] using collectConstants_inFile site id items
  | .branch _ thenBody elseBody => by
      simp [collectStmt, collectStmts_inFile site id thenBody,
        collectStmts_inFile site id elseBody]
  | .loop _ body => by
      simpa [collectStmt] using collectStmts_inFile site id body
  | .forEach _ _ _ body => by
      simpa [collectStmt] using collectStmts_inFile site id body
  | .attempt body catches cleanup => by
      simp [collectStmt, collectStmts_inFile site id body, collectCatches_inFile site id catches,
        collectStmts_inFile site id cleanup]
  | .block body => by
      simpa [collectStmt] using collectStmts_inFile site id body
  | .expr _ => rfl
  | .returned _ => rfl
  | .echo _ => rfl
  | .varDoc _ _ => rfl
  | .globals _ => rfl

theorem collectStmts_inFile (site : Site) (id : FileId) : (stmts : List Stmt) →
    collectStmts (site.inFile id) stmts = (collectStmts site stmts).map (Declared.inFile id)
  | [] => rfl
  | s :: rest => by
      simp [collectStmts, collectStmt_inFile site id s, collectStmts_inFile site id rest]

theorem collectConstants_inFile (site : Site) (id : FileId) : (items : List ConstItem) →
    collectConstants (site.inFile id) items =
      (collectConstants site items).map (Declared.inFile id)
  | [] => rfl
  | .mk name _ :: items => by
      simp [collectConstants, Site.symbol_inFile, collectConstants_inFile site id items,
        Declared.inFile]

theorem collectCatches_inFile (site : Site) (id : FileId) : (catches : List Catch) →
    collectCatches (site.inFile id) catches =
      (collectCatches site catches).map (Declared.inFile id)
  | [] => rfl
  | .mk _ _ body :: catches => by
      simp [collectCatches, collectStmts_inFile site id body,
        collectCatches_inFile site id catches]

theorem collectClass_inFile (site : Site) (id : FileId) : (decl : ClassDecl) →
    collectClass (site.inFile id) decl = (collectClass site decl).map (Declared.inFile id)
  | .mk _ none _ _ _ => rfl
  | .mk _ (some _) _ _ members => by
      simp [collectClass, Site.classLike_inFile, collectMembers_inFile site id members,
        Site.clause_inFile, Declared.inFile, Function.comp_def]

theorem collectMembers_inFile (site : Site) (id : FileId) : (members : List Member) →
    collectMembers (site.inFile id) members =
      (collectMembers site members).map (Declared.inFile id)
  | [] => rfl
  | m :: rest => by
      simp [collectMembers, collectMember_inFile site id m, collectMembers_inFile site id rest]

theorem collectMember_inFile (site : Site) (id : FileId) : (m : Member) →
    collectMember (site.inFile id) m = (collectMember site m).map (Declared.inFile id)
  | .method _ _ _ _ _ body => by
      simp [collectMember, Site.method_inFile, Site.promotedIn_inFile,
        collectStmts_inFile site id body, Declared.inFile, Function.comp_def]
  | .property _ _ _ _ _ _ => by
      simp [collectMember, Site.property_inFile, Declared.inFile]
  | .constant _ _ _ => by
      simp [collectMember, Site.constant_inFile, Declared.inFile]
  | .enumCase _ _ => by
      simp [collectMember, Site.enumCase_inFile, Declared.inFile]
  | .traitUse traits => by
      simp [collectMember, Site.clause_inFile, Declared.inFile, Function.comp_def]

end

theorem ofList_map_inFile (id : FileId) (found : List Declared) :
    ofList (found.map (Declared.inFile id)) =
      { symbols := (ofList found).symbols.map (Symbol.inFile id),
        clauses := (ofList found).clauses } := by
  have hsymbol : Declared.symbol? ∘ Declared.inFile id =
      fun d => d.symbol?.map (Symbol.inFile id) := by
    funext d
    cases d <;> rfl
  have hclause : Declared.clause? ∘ Declared.inFile id = Declared.clause? := by
    funext d
    cases d <;> rfl
  unfold ofList
  rw [List.filterMap_map, List.filterMap_map, hsymbol, hclause, List.map_filterMap]

/-- The declarations of a file under one number are those under another, with the number replaced in
each symbol. -/
theorem collect_eq_inFile (id file : FileId) (lines : Lines) (stmts : List Stmt) :
    collect id lines stmts =
      { symbols := (collect file lines stmts).symbols.map (Symbol.inFile id),
        clauses := (collect file lines stmts).clauses } := by
  have hwalk := collectStmts_inFile { file := file, lines := lines } id stmts
  unfold collect
  rw [← ofList_map_inFile, show ({ file := id, lines := lines } : Site) =
    ({ file := file, lines := lines } : Site).inFile id from rfl, hwalk]
  rfl

/-! ## Lists of declarations -/

/-- The names of the types in a list of declarations. -/
def typeNames (symbols : List Symbol) : List String :=
  (symbols.filter (·.kind.isType)).map Symbol.qualifiedName

theorem ofList_append (found more : List Declared) :
    ofList (found ++ more) =
      { symbols := (ofList found).symbols ++ (ofList more).symbols,
        clauses := (ofList found).clauses ++ (ofList more).clauses } := by
  simp [ofList]

theorem typeNames_append (symbols more : List Symbol) :
    typeNames (symbols ++ more) = typeNames symbols ++ typeNames more := by
  simp [typeNames]

theorem mem_typeNames_iff {symbols : List Symbol} {name : String} :
    name ∈ typeNames symbols ↔ ∃ s ∈ symbols, s.kind.isType = true ∧ s.qualifiedName = name := by
  simp [typeNames, and_assoc]

theorem enclosing_foldl_addImport (kind : NameKind) (items : List ImportItem) (ctx : Context) :
    (items.foldl (fun ctx item => ctx.addImport kind item.localName item.name.text)
      ctx).enclosing = ctx.enclosing := by
  induction items generalizing ctx with
  | nil => rfl
  | cons item items ih => exact ih _

end Declarations
end CrossReference
