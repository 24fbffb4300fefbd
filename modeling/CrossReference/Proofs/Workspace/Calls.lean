import CrossReference.Workspace.Basic

/-!
# Calls of a workspace

The calls that a user makes on a workspace without a store, and what they come down to. Each call
first registers paths, links the catalog or replaces the settings, and then installs and removes
single files. `Workspace.call_eq_foldl_perform` says so; all that is shown of single installations
and removals holds of calls.
-/

namespace CrossReference

/-- What a file declares when it is indexed under a number; without a tree it declares nothing. -/
def SourceFile.declarations (f : SourceFile) (id : FileId) : Declarations :=
  (f.tree.map (Declarations.collect id (.ofText f.text))).getD {}

/-- The keys of the symbols that a file declares. -/
def SourceFile.declaredKeys (f : SourceFile) (id : FileId) : List SymbolKey :=
  (f.declarations id).symbols.map Symbol.key

namespace Workspace

/-- A call on a workspace. -/
inductive Call where
  | setFile (f : SourceFile)
  | setFiles (fs : List SourceFile)
  | removeFile (path : String)
  | setSettings (settings : Settings)
  | snapshot

/-- The workspace after a call. A snapshot leaves the catalog linked. -/
def call (w : Workspace) : Call → Workspace
  | .setFile f => (w.setFile none f).2.1
  | .setFiles fs => (w.setFiles none fs).2.1
  | .removeFile path => (w.removeFile none path).2.1
  | .setSettings settings => w.setSettings settings
  | .snapshot => w.linked

/-- The workspace that a sequence of calls makes of a new one. -/
def after (settings : Settings) (calls : List Call) : Workspace :=
  calls.foldl call (ofSettings settings)

/-- A single change of what is indexed. -/
inductive Effect where
  | installed (id : FileId) (f : SourceFile)
  | removed (id : FileId)

/-- Makes a single change. -/
def perform (w : Workspace) : Effect → Workspace
  | .installed id f => w.install id f (Text.digest f.text) (some (f.declarations id))
  | .removed id =>
      { w with
        files := w.files.erase id
        registry := w.registry.forget id
        catalog := w.catalog.removeFile id }

/-- What a call does before the first file is touched. -/
def prepare (w : Workspace) : Call → Workspace
  | .setFile f => { w with registry := (w.registry.register f.path).2 }
  | .setFiles fs => { w with registry := (registerAll w.registry fs).2 }
  | .removeFile _ => w
  | .setSettings settings => w.setSettings settings
  | .snapshot => w.linked

/-- The files of a batch that are not indexed with the same contents, as they are installed. -/
def installations (w : Workspace) (batch : List (FileId × SourceFile)) : List Effect :=
  (batch.filter fun (id, f) => !w.isUnchanged id (Text.digest f.text)).map fun (id, f) =>
    .installed id f

/-- The single changes that a call makes, in order. -/
def effects (w : Workspace) : Call → List Effect
  | .setFile f => (w.prepare (.setFile f)).installations [((w.registry.register f.path).1, f)]
  | .setFiles fs =>
      (w.prepare (.setFiles fs)).installations ((registerAll w.registry fs).1.zip fs)
  | .removeFile path =>
      ((w.registry.lookup? path).filter w.files.contains).toList.map .removed
  | .setSettings _ => []
  | .snapshot => []

theorem install_declarationsOf (w : Workspace) (f : SourceFile) (id : FileId) (digest : String) :
    w.install id f digest (declarationsOf none f id digest).1 =
      w.install id f digest (some (f.declarations id)) := by
  unfold install declarationsOf SourceFile.declarations
  cases f.tree with
  | none => rfl
  | some stmts => rfl

theorem declarationsOf_none_store (f : SourceFile) (id : FileId) (digest : String) :
    (declarationsOf none f id digest).2 = none := by
  unfold declarationsOf
  cases f.tree with
  | none => rfl
  | some stmts => rfl

-- Which files changed is decided against `w`, while the installations act on `start`.
theorem foldl_install_changes (w start : Workspace) (batch : List (FileId × SourceFile)) :
    (w.changes none batch).1.foldl (fun w c => w.install c.id c.file c.digest c.found) start =
      (w.installations batch).foldl perform start := by
  induction batch generalizing start with
  | nil => rfl
  | cons next rest ih =>
      obtain ⟨id, f⟩ := next
      have hstore := declarationsOf_none_store f id (Text.digest f.text)
      unfold installations changes
      cases hsame : w.isUnchanged id (Text.digest f.text) with
      | true =>
          simp only [hsame, if_true, List.filter_cons, Bool.not_true, Bool.false_eq_true, if_false]
          exact ih start
      | false =>
          simp only [hsame, Bool.false_eq_true, if_false, hstore, List.foldl_cons,
            List.filter_cons, Bool.not_false, if_true, List.map_cons, install_declarationsOf]
          exact ih _

/-- Every call comes down to its preparation and single changes. -/
theorem call_eq_foldl_perform (w : Workspace) (c : Call) :
    w.call c = (w.effects c).foldl perform (w.prepare c) := by
  cases c with
  | setFile f =>
      unfold call effects setFile installations
      simp only [prepare, List.filter_cons, List.filter_nil]
      cases hsame : ({ w with registry := (w.registry.register f.path).2 } : Workspace).isUnchanged
          (w.registry.register f.path).1 (Text.digest f.text) with
      | true => simp
      | false =>
          simp only [Bool.false_eq_true, if_false, Bool.not_false, if_true, List.map_cons,
            List.map_nil, List.foldl_cons, List.foldl_nil]
          exact install_declarationsOf _ _ _ _
  | setFiles fs => exact foldl_install_changes _ _ _
  | removeFile path =>
      change (w.removeFile none path).2.1 =
        (((w.registry.lookup? path).filter w.files.contains).toList.map .removed).foldl perform w
      unfold removeFile
      cases hid : w.registry.lookup? path with
      | none => rfl
      | some id =>
          cases hindexed : w.files.contains id with
          | true => simp [hindexed, Option.filter, perform]
          | false => simp [hindexed, Option.filter]
  | setSettings settings => rfl
  | snapshot => rfl

/-- All single changes that a sequence of calls makes, in order. -/
def history (w : Workspace) : List Call → List Effect
  | [] => []
  | c :: cs => w.effects c ++ (w.call c).history cs

end Workspace
end CrossReference
