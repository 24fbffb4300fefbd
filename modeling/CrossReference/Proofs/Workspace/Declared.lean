import CrossReference.Proofs.Catalog.Ownership
import CrossReference.Proofs.Workspace.Calls

/-!
# Which keys are declared

A file that is indexed declares keys, and so may others. The last one to declare a key wins; when
it goes away, the key goes with it, even if another file that is still indexed declares it as well.
The keys of a workspace are therefore described by the order of the installations: a key is there if
and only if the file that declared it last is still indexed and still declares it.

* `Workspace.lastDeclarer?` reads the last declaration of a key off a history.
* `Workspace.Recorded` ties a workspace to its history; `Workspace.Recorded.perform` is the step
  lemma and `Workspace.recorded_after` the run lemma.
* `Workspace.Recorded.contains_iff` says which keys are there, and `Workspace.Recorded.missing_iff`
  when a key is missing that an indexed file declares.
* `Workspace.contains_key_iff_last_declarer_indexed` describes the keys of every workspace.
-/

namespace CrossReference
namespace Workspace

/-- The file that a single change makes the last one to declare `key`. -/
def Effect.declarer? (key : SymbolKey) : Effect → Option FileId
  | .installed id f => if key ∈ f.declaredKeys id then some id else none
  | .removed _ => none

/-- The last file in a history that declared `key`, whether or not it is still indexed. -/
def lastDeclarer? (key : SymbolKey) (log : List Effect) : Option FileId :=
  (log.filterMap (Effect.declarer? key)).getLast?

theorem lastDeclarer?_concat (key : SymbolKey) (log : List Effect) (e : Effect) :
    lastDeclarer? key (log ++ [e]) = (e.declarer? key).or (lastDeclarer? key log) := by
  unfold lastDeclarer?
  cases h : e.declarer? key with
  | none => simp [h]
  | some id => simp [h]

/-- A key that some file of the history declared has a last declarer. -/
theorem exists_lastDeclarer? {key : SymbolKey} {log : List Effect} {id : FileId} {f : SourceFile}
    (hlog : .installed id f ∈ log) (hkey : key ∈ f.declaredKeys id) :
    ∃ last, lastDeclarer? key log = some last := by
  have hmem : id ∈ log.filterMap (Effect.declarer? key) :=
    List.mem_filterMap.2 ⟨_, hlog, if_pos hkey⟩
  exact Option.isSome_iff_exists.1 (List.getLast?_isSome.2 (List.ne_nil_of_mem hmem))

/-! ## Installing the symbols of a file -/

theorem owned_foldl_declare {c : Catalog} (hc : c.Owned) (id : FileId) (symbols : List Symbol) :
    (symbols.foldl (fun c s => c.declare { s with file := id }) c).Owned := by
  induction symbols generalizing c with
  | nil => exact hc
  | cons s rest ih => exact ih (hc.declare _)

theorem ownerOf?_foldl_declare (c : Catalog) (id : FileId) (symbols : List Symbol)
    (key : SymbolKey) :
    (symbols.foldl (fun c s => c.declare { s with file := id }) c).ownerOf? key =
      if key ∈ symbols.map Symbol.key then some id else c.ownerOf? key := by
  induction symbols generalizing c with
  | nil => simp
  | cons s rest ih =>
      rw [List.foldl_cons, ih, Catalog.ownerOf?_declare,
        show ({ s with file := id } : Symbol).key = s.key from rfl, List.map_cons]
      by_cases hrest : key ∈ rest.map Symbol.key
      · rw [if_pos hrest, if_pos (List.mem_cons_of_mem _ hrest)]
      · rw [if_neg hrest]
        by_cases hkey : key = s.key
        · rw [if_pos hkey, if_pos (by simp [hkey])]
        · rw [if_neg hkey, if_neg (by simp [hkey, hrest])]

/-! ## Workspaces and their histories -/

/-- The files were installed, and the owner of a key is the file that declared it last, provided
that it is still indexed and still declares it. -/
structure Recorded (w : Workspace) (log : List Effect) : Prop where
  owned : w.catalog.Owned
  installed_mem : ∀ id f, w.files.find? id = some f → .installed id f ∈ log
  ownerOf?_iff : ∀ key id, w.catalog.ownerOf? key = some id ↔
    lastDeclarer? key log = some id ∧ ∃ f, w.files.find? id = some f ∧ key ∈ f.declaredKeys id

theorem recorded_ofSettings (settings : Settings) : (ofSettings settings).Recorded [] where
  owned := Catalog.owned_empty.congr rfl rfl
  installed_mem := by
    intro id f hf
    have hnone : (ofSettings settings).files.find? id = none := rfl
    exact absurd (hnone.symm.trans hf) (by simp)
  ownerOf?_iff := by
    intro key id
    have hnone : (ofSettings settings).catalog.ownerOf? key = none := rfl
    simp [hnone, lastDeclarer?]

/-- Only the files, the symbols and their owners matter. -/
theorem Recorded.congr {w w' : Workspace} {log : List Effect} (hw : w.Recorded log)
    (hfiles : w'.files = w.files) (hsymbols : w'.catalog.symbols = w.catalog.symbols)
    (howners : w'.catalog.declaredBy = w.catalog.declaredBy) : w'.Recorded log where
  owned := hw.owned.congr hsymbols howners
  installed_mem := by
    rw [hfiles]
    exact hw.installed_mem
  ownerOf?_iff := by
    intro key id
    rw [hfiles, ← hw.ownerOf?_iff]
    unfold Catalog.ownerOf?
    rw [hsymbols]

theorem Recorded.prepare {w : Workspace} {log : List Effect} (hw : w.Recorded log) (c : Call) :
    (w.prepare c).Recorded log := by
  cases c with
  | setFile f => exact hw.congr rfl rfl rfl
  | setFiles fs => exact hw.congr rfl rfl rfl
  | removeFile path => exact hw
  | setSettings settings => exact hw.congr rfl rfl rfl
  | snapshot =>
      obtain ⟨hsymbols, howners⟩ := w.catalog.symbols_link
      exact hw.congr rfl hsymbols howners

theorem Recorded.installed {w : Workspace} {log : List Effect} (hw : w.Recorded log) (id : FileId)
    (f : SourceFile) : (w.perform (.installed id f)).Recorded (log ++ [.installed id f]) where
  owned :=
    (owned_foldl_declare (hw.owned.removeFile id) id (f.declarations id).symbols).congr rfl rfl
  installed_mem := by
    intro id' f' hf'
    have hfiles : (w.perform (.installed id f)).files.find? id' =
        if id' = id then some f else w.files.find? id' := OrderedMap.find?_insert _ _ _ _
    rw [hfiles] at hf'
    split at hf'
    · rename_i hid
      obtain rfl := Option.some.inj hf'
      rw [hid]
      exact List.mem_append_right _ (List.mem_singleton_self _)
    · exact List.mem_append_left _ (hw.installed_mem id' f' hf')
  ownerOf?_iff := by
    intro key id'
    have howner : (w.perform (.installed id f)).catalog.ownerOf? key =
        if key ∈ f.declaredKeys id then some id
        else (w.catalog.ownerOf? key).filter (· ≠ id) := by
      rw [← hw.owned.ownerOf?_removeFile]
      exact ownerOf?_foldl_declare _ _ _ _
    have hfiles : (w.perform (.installed id f)).files.find? id' =
        if id' = id then some f else w.files.find? id' := OrderedMap.find?_insert _ _ _ _
    rw [howner, hfiles, lastDeclarer?_concat]
    simp only [Effect.declarer?]
    by_cases hkey : key ∈ f.declaredKeys id
    · -- The key belongs to the new contents, which are also the last to declare it.
      rw [if_pos hkey, if_pos hkey, Option.some_or, Option.some.injEq]
      constructor
      · rintro rfl
        exact ⟨rfl, f, if_pos rfl, hkey⟩
      · exact And.left
    · rw [if_neg hkey, if_neg hkey, Option.none_or, Option.filter_eq_some_iff]
      by_cases hid : id' = id
      · -- What the file declared before is gone.
        subst hid
        simp [hkey]
      · simp [hid, hw.ownerOf?_iff]

theorem Recorded.removed {w : Workspace} {log : List Effect} (hw : w.Recorded log)
    (id : FileId) : (w.perform (.removed id)).Recorded (log ++ [.removed id]) where
  owned := hw.owned.removeFile id
  installed_mem := by
    intro id' f' hf'
    have hfiles : (w.perform (.removed id)).files.find? id' =
        if id' = id then none else w.files.find? id' := OrderedMap.find?_erase _ _ _
    rw [hfiles] at hf'
    obtain ⟨_, hf'⟩ := Option.ite_none_left_eq_some.1 hf'
    exact List.mem_append_left _ (hw.installed_mem id' f' hf')
  ownerOf?_iff := by
    intro key id'
    have howner : (w.perform (.removed id)).catalog.ownerOf? key =
        (w.catalog.ownerOf? key).filter (· ≠ id) := hw.owned.ownerOf?_removeFile id key
    have hfiles : (w.perform (.removed id)).files.find? id' =
        if id' = id then none else w.files.find? id' := OrderedMap.find?_erase _ _ _
    rw [howner, hfiles, lastDeclarer?_concat, Option.filter_eq_some_iff]
    simp only [Effect.declarer?]
    by_cases hid : id' = id
    · subst hid
      simp
    · simp [hid, hw.ownerOf?_iff]

theorem Recorded.perform {w : Workspace} {log : List Effect} (hw : w.Recorded log) (e : Effect) :
    (w.perform e).Recorded (log ++ [e]) := by
  cases e with
  | installed id f => exact hw.installed id f
  | removed id => exact hw.removed id

theorem Recorded.foldl_perform {w : Workspace} {log : List Effect} (hw : w.Recorded log)
    (es : List Effect) : (es.foldl Workspace.perform w).Recorded (log ++ es) := by
  induction es generalizing w log with
  | nil => simpa using hw
  | cons e rest ih => simpa using ih (hw.perform e)

theorem Recorded.foldl_call {w : Workspace} {log : List Effect} (hw : w.Recorded log)
    (calls : List Call) : (calls.foldl call w).Recorded (log ++ w.history calls) := by
  induction calls generalizing w log with
  | nil => simpa [history] using hw
  | cons c rest ih =>
      have hstep : (w.call c).Recorded (log ++ w.effects c) := by
        rw [call_eq_foldl_perform]
        exact (hw.prepare c).foldl_perform _
      simpa [history] using ih hstep

theorem recorded_after (settings : Settings) (calls : List Call) :
    (after settings calls).Recorded ((ofSettings settings).history calls) := by
  have hrun := (recorded_ofSettings settings).foldl_call calls
  rw [List.nil_append] at hrun
  exact hrun

/-- The keys that are there. -/
theorem Recorded.contains_iff {w : Workspace} {log : List Effect} (hw : w.Recorded log)
    (key : SymbolKey) :
    w.catalog.symbols.contains key = true ↔
      ∃ id f, w.files.find? id = some f ∧ key ∈ f.declaredKeys id ∧
        lastDeclarer? key log = some id := by
  have howner : w.catalog.symbols.contains key = true ↔
      ∃ id, w.catalog.ownerOf? key = some id := by
    rw [OrderedMap.contains_iff]
    constructor
    · rintro ⟨s, hs⟩
      exact ⟨s.file, by simp [Catalog.ownerOf?, hs]⟩
    · rintro ⟨id, hid⟩
      obtain ⟨s, hs, _⟩ := Option.map_eq_some_iff.1 hid
      exact ⟨s, hs⟩
  rw [howner]
  constructor
  · rintro ⟨id, hid⟩
    obtain ⟨hlast, f, hf, hkey⟩ := (hw.ownerOf?_iff key id).1 hid
    exact ⟨id, f, hf, hkey, hlast⟩
  · rintro ⟨id, f, hf, hkey, hlast⟩
    exact ⟨id, (hw.ownerOf?_iff key id).2 ⟨hlast, f, hf, hkey⟩⟩

/-- A key that an indexed file declares is missing if and only if another file declared it last and
does not declare it any more, be it that it is gone or that its contents are others. -/
theorem Recorded.missing_iff {w : Workspace} {log : List Effect} (hw : w.Recorded log)
    {key : SymbolKey} {id : FileId} {f : SourceFile} (hf : w.files.find? id = some f)
    (hkey : key ∈ f.declaredKeys id) :
    w.catalog.symbols.contains key = false ↔
      ∃ last, last ≠ id ∧ lastDeclarer? key log = some last ∧
        ∀ g, w.files.find? last = some g → key ∉ g.declaredKeys last := by
  rw [Bool.eq_false_iff, Ne, hw.contains_iff]
  constructor
  · intro hmissing
    obtain ⟨last, hlast⟩ := exists_lastDeclarer? (hw.installed_mem id f hf) hkey
    refine ⟨last, ?_, hlast, fun g hg hdeclares => hmissing ⟨last, g, hg, hdeclares, hlast⟩⟩
    rintro rfl
    exact hmissing ⟨last, f, hf, hkey, hlast⟩
  · rintro ⟨last, _, hlast, hnone⟩ ⟨id', g, hg, hdeclares, hlast'⟩
    obtain rfl := Option.some.inj (hlast.symm.trans hlast')
    exact hnone g hg hdeclares

/-- After any calls a key is declared if and only if the file that declared it last is still indexed
and its indexed contents declare the key. So a key that an indexed file declares is missing if and
only if the last file that declared it is another one, which is gone or does not declare it any
more. -/
theorem contains_key_iff_last_declarer_indexed (settings : Settings) (calls : List Call)
    (key : SymbolKey) :
    let w := after settings calls
    let log := (ofSettings settings).history calls
    (w.catalog.symbols.contains key = true ↔
      ∃ id f, w.files.find? id = some f ∧ key ∈ f.declaredKeys id ∧
        lastDeclarer? key log = some id) ∧
    ∀ id f, w.files.find? id = some f → key ∈ f.declaredKeys id →
      (w.catalog.symbols.contains key = false ↔
        ∃ last, last ≠ id ∧ lastDeclarer? key log = some last ∧
          ∀ g, w.files.find? last = some g → key ∉ g.declaredKeys last) := by
  have hw := recorded_after settings calls
  exact ⟨hw.contains_iff key, fun _ _ hf hkey => hw.missing_iff hf hkey⟩

/-- A file of the given path that declares the class `Widget` and nothing else. -/
def widgetFile (path : String) : SourceFile where
  path := path
  text := "class Widget {}"
  tree := some [.classLike (.mk .classDecl (some ⟨"Widget", ⟨6, 12⟩⟩) [] [] [])]

/-- Of three files that declare a class the last is removed. Both others are still indexed, and yet
the class is not declared any more. -/
theorem last_of_three_declarers_removed :
    let calls : List Call := [.setFile (widgetFile "first.php"), .setFile (widgetFile "second.php"),
      .setFile (widgetFile "third.php"), .removeFile "third.php"]
    let w := after {} calls
    let widget := SymbolKey.ofName (.type .classDecl) "Widget"
    w.files.find? ⟨0⟩ = some (widgetFile "first.php") ∧
      w.files.find? ⟨1⟩ = some (widgetFile "second.php") ∧
      lastDeclarer? widget ((ofSettings {}).history calls) = some ⟨2⟩ ∧
      w.files.find? ⟨2⟩ = none ∧ w.catalog.symbols.contains widget = false := by
  intro calls w widget
  have hfirst : w.files.find? ⟨0⟩ = some (widgetFile "first.php") := rfl
  have hgone : w.files.find? ⟨2⟩ = none := rfl
  have hlast : lastDeclarer? widget ((ofSettings {}).history calls) = some ⟨2⟩ := by
    decide +kernel
  have hmissing := (contains_key_iff_last_declarer_indexed {} calls widget).2 ⟨0⟩
    (widgetFile "first.php") hfirst (by decide +kernel)
  refine ⟨hfirst, rfl, hlast, hgone, hmissing.2 ⟨⟨2⟩, by decide, hlast, fun g hg => ?_⟩⟩
  exact absurd (hgone.symm.trans hg) (by simp)

/-- The first of two files that declare a class is still indexed after the second was removed, and
yet the class is not declared any more. -/
theorem shadowed_declaration_not_restored :
    let w := after {}
      [.setFile (widgetFile "first.php"), .setFile (widgetFile "second.php"),
        .removeFile "second.php"]
    let widget := SymbolKey.ofName (.type .classDecl) "Widget"
    w.files.find? ⟨0⟩ = some (widgetFile "first.php") ∧
      widget ∈ (widgetFile "first.php").declaredKeys ⟨0⟩ ∧
      w.catalog.symbols.contains widget = false :=
  ⟨rfl, by decide +kernel, by decide +kernel⟩

end Workspace
end CrossReference
