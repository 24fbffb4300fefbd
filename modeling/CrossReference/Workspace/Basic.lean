import CrossReference.Declaration.Store
import CrossReference.Source.Registry
import CrossReference.Text.Digest
import CrossReference.Workspace.Snapshot

/-!
# Workspaces

A workspace holds the indexed files and the catalog of their declarations. Indexing a file replaces
what it declared before; a file whose contents did not change is left alone. Workspaces may share a
store of collected declarations, which each operation takes and gives back.
-/

namespace CrossReference

/-- The indexed files and what they declare. -/
structure Workspace where
  files : OrderedMap FileId SourceFile := ∅
  registry : Registry := ∅
  catalog : Catalog := ∅
  settings : Settings := {}

namespace Workspace

/-- A workspace without files. -/
def ofSettings (settings : Settings) : Workspace where
  catalog := Catalog.setAncestorLimit ∅ settings.maxAncestors
  settings := settings

instance : Inhabited Workspace := ⟨ofSettings {}⟩

/-- Replaces the settings. -/
def setSettings (w : Workspace) (settings : Settings) : Workspace :=
  { w with
    catalog := w.catalog.setAncestorLimit settings.maxAncestors
    settings := settings }

/-- Whether a file is indexed with contents of the given digest. -/
def isUnchanged (w : Workspace) (id : FileId) (digest : String) : Bool :=
  w.files.contains id && w.registry.digest? id == some digest

/-- The declarations of a file, from the store if they are there; a file without a tree has none. -/
def declarationsOf (store : Option DeclarationStore) (f : SourceFile) (id : FileId)
    (digest : String) : Option Declarations × Option DeclarationStore :=
  match f.tree with
  | none => (none, store)
  | some stmts =>
    let collected := Declarations.collect id (.ofText f.text) stmts
    match store with
    | none => (some collected, none)
    | some s =>
      match s.fetch f.path digest with
      | (some found, s) => (some found, some s)
      | (none, s) => (some collected, some (s.put f.path digest collected))

/-- Adds the declarations of a file to a catalog, as its own. -/
def declareAll (c : Catalog) (id : FileId) (found : Declarations) : Catalog :=
  (found.symbols.foldl (fun c s => c.declare { s with file := id }) c).setClauses id found.clauses

/-- Replaces a file and what it declares. -/
def install (w : Workspace) (id : FileId) (f : SourceFile) (digest : String)
    (found : Option Declarations) : Workspace :=
  { w with
    files := w.files.insert id f
    registry := w.registry.setDigest id digest
    catalog := declareAll (w.catalog.removeFile id) id (found.getD {}) }

/-- Indexes a file. Gives its number. -/
def setFile (w : Workspace) (store : Option DeclarationStore) (f : SourceFile) :
    FileId × Workspace × Option DeclarationStore :=
  let (id, registry) := w.registry.register f.path
  let w := { w with registry := registry }
  let digest := Text.digest f.text
  if w.isUnchanged id digest then
    (id, w, store)
  else
    let (found, store) := declarationsOf store f id digest
    (id, w.install id f digest found, store)

/-- Gives each path of a list its number. -/
def registerAll (r : Registry) : List SourceFile → List FileId × Registry
  | [] => ([], r)
  | f :: fs =>
    let (id, r) := r.register f.path
    let (ids, r) := registerAll r fs
    (id :: ids, r)

/-- A file of a batch that is to be installed. -/
structure Change where
  id : FileId
  file : SourceFile
  digest : String
  found : Option Declarations

/-- The files of a batch that differ from what `w` has indexed, with their declarations. -/
def changes (w : Workspace) (store : Option DeclarationStore) :
    List (FileId × SourceFile) → List Change × Option DeclarationStore
  | [] => ([], store)
  | (id, f) :: rest =>
    let digest := Text.digest f.text
    if w.isUnchanged id digest then
      changes w store rest
    else
      let (found, store) := declarationsOf store f id digest
      let (others, store) := changes w store rest
      ({ id := id, file := f, digest := digest, found := found } :: others, store)

/-- Indexes a batch of files. Which of them changed is decided before the first is replaced. -/
def setFiles (w : Workspace) (store : Option DeclarationStore) (fs : List SourceFile) :
    List FileId × Workspace × Option DeclarationStore :=
  let (ids, registry) := registerAll w.registry fs
  let w := { w with registry := registry }
  let (changed, store) := w.changes store (ids.zip fs)
  (ids, changed.foldl (fun w c => w.install c.id c.file c.digest c.found) w, store)

/-- Removes a file and what it declares. Tells whether it was indexed. -/
def removeFile (w : Workspace) (store : Option DeclarationStore) (path : String) :
    Bool × Workspace × Option DeclarationStore :=
  match w.registry.lookup? path with
  | none => (false, w, store)
  | some id =>
    if w.files.contains id then
      (true,
        { w with
          files := w.files.erase id
          registry := w.registry.forget id
          catalog := w.catalog.removeFile id },
        store.map (·.invalidate path))
    else
      (false, w, store)

/-- The workspace with a linked catalog. -/
def linked (w : Workspace) : Workspace :=
  { w with catalog := w.catalog.link }

/-- A view of a workspace; it is linked first. -/
def snapshot (w : Workspace) : Snapshot where
  files := w.files
  catalog := w.linked.catalog
  settings := w.settings

end Workspace
end CrossReference
