import CrossReference.Proofs.Workspace.Consistency
import CrossReference.Proofs.Workspace.Relinking

/-!
# Files and their numbers, with a store

A store may give anything for the declarations of a file. Whatever it gives, an indexed file has the
number of its path, and every symbol carries the number of an indexed file.

* `Workspace.respond_induction` reduces what a call with a store keeps to the single changes.
* `Workspace.Filed` is the invariant, and `Workspace.filed_afterWith` says that it always holds.
-/

namespace CrossReference
namespace Workspace

open CrossReference.Registry

/-! ## Induction over calls with a store -/

section Induction

variable {P : Workspace → Prop}
  (hinstall : ∀ (w : Workspace) (id : FileId) (f : SourceFile) (digest : String)
    (found : Option Declarations), w.registry.lookup? f.path = some id → P w →
      P (w.install id f digest found))

include hinstall

theorem foldl_changes_induction {start : Workspace} (hstart : P start) (w : Workspace)
    (store : Option DeclarationStore) {batch : List (FileId × SourceFile)}
    (hbatch : ∀ x ∈ batch, start.registry.lookup? x.2.path = some x.1) :
    P ((w.changes store batch).1.foldl (fun w c => w.install c.id c.file c.digest c.found)
      start) := by
  induction batch generalizing start store with
  | nil => exact hstart
  | cons x batch ih =>
      obtain ⟨id, f⟩ := x
      rw [List.forall_mem_cons] at hbatch
      unfold changes
      cases hsame : w.isUnchanged id (Text.digest f.text) with
      | true =>
          simp only [hsame, if_true]
          exact ih hstart store hbatch.2
      | false =>
          simp only [hsame, Bool.false_eq_true, if_false, List.foldl_cons]
          exact ih (hinstall start id f _ _ hbatch.1 hstart) _ hbatch.2

/-- What survives preparations, installations and removals survives a call, whatever is in the
store. -/
theorem respond_induction (hprepare : ∀ (w : Workspace) (c : Call), P w → P (w.prepare c))
    (hremove : ∀ (w : Workspace) (id : FileId), P w → P (w.perform (.removed id)))
    {w : Workspace} (hw : P w) (store : Option DeclarationStore) (c : Call) :
    P (w.respond store c).2.1 := by
  cases c with
  | setFile f =>
      show P (w.setFile store f).2.1
      rw [setFile_eq_changes]
      refine foldl_changes_induction hinstall (hprepare w (.setFile f) hw) _ store ?_
      rintro x hx
      obtain rfl := List.mem_singleton.1 hx
      simp only [prepare, register_eq]
      exact lookup?_numbered (mem_addPath _ _)
  | setFiles fs =>
      refine foldl_changes_induction hinstall (hprepare w (.setFiles fs) hw) _ store ?_
      rw [zip_registerAll]
      rintro x hx
      obtain ⟨f, hf, rfl⟩ := List.mem_map.1 hx
      simp only [prepare, registerAll_eq]
      exact lookup?_numbered (mem_addPaths hf)
  | removeFile path =>
      show P (w.removeFile store path).2.1
      unfold removeFile
      split
      · exact hw
      · split
        · exact hremove w _ hw
        · exact hw
  | setSettings settings => exact hprepare w (.setSettings settings) hw
  | snapshot => exact hprepare w .snapshot hw

end Induction

/-! ## The invariant -/

/-- Indexed files have the numbers of their paths, and symbols those of indexed files. -/
structure Filed (w : Workspace) : Prop where
  lookup? : ∀ id f, w.files.find? id = some f → w.registry.lookup? f.path = some id
  owned : w.catalog.Owned
  indexed : ∀ key s, w.catalog.symbols.find? key = some s → w.files.contains s.file = true

theorem filed_ofSettings (settings : Settings) : (ofSettings settings).Filed where
  lookup? := (consistent_ofSettings settings).lookup?
  owned := (consistent_ofSettings settings).owned
  indexed := by
    intro key s hs
    obtain ⟨f, hf, _⟩ := (consistent_ofSettings settings).symbols key s hs
    exact OrderedMap.contains_iff.2 ⟨f, hf⟩

theorem Filed.congr {w w' : Workspace} (hw : w.Filed) (hfiles : w'.files = w.files)
    (hpaths : w.registry.paths <+: w'.registry.paths)
    (hsymbols : w'.catalog.symbols = w.catalog.symbols)
    (howners : w'.catalog.declaredBy = w.catalog.declaredBy) : w'.Filed where
  lookup? := by
    intro id f hf
    rw [hfiles] at hf
    exact lookup?_of_isPrefix hpaths (hw.lookup? id f hf)
  owned := hw.owned.congr hsymbols howners
  indexed := by
    rw [hsymbols, hfiles]
    exact hw.indexed

theorem Filed.prepare {w : Workspace} (hw : w.Filed) (c : Call) : (w.prepare c).Filed := by
  cases c with
  | setFile f =>
      refine hw.congr rfl ?_ rfl rfl
      simp only [Workspace.prepare, register_eq]
      exact prefix_addPath _ _
  | setFiles fs =>
      refine hw.congr rfl ?_ rfl rfl
      simp only [Workspace.prepare, registerAll_eq]
      exact prefix_addPaths _ _
  | removeFile path => exact hw
  | setSettings settings => exact hw.congr rfl List.prefix_rfl rfl rfl
  | snapshot =>
      obtain ⟨hsymbols, howners⟩ := w.catalog.symbols_link
      exact hw.congr rfl List.prefix_rfl hsymbols howners

theorem Filed.install {w : Workspace} (hw : w.Filed) {id : FileId} {f : SourceFile}
    (hid : w.registry.lookup? f.path = some id) (digest : String) (found : Option Declarations) :
    (w.install id f digest found).Filed where
  lookup? := by
    intro id' g hg
    have hg' : (if id' = id then some f else w.files.find? id') = some g :=
      (OrderedMap.find?_insert _ _ _ _).symm.trans hg
    show w.registry.lookup? g.path = some id'
    split at hg'
    · rename_i heq
      rw [← Option.some.inj hg', heq]
      exact hid
    · exact hw.lookup? id' g hg'
  owned := (owned_foldl_declare (hw.owned.removeFile id) id _).congr rfl rfl
  indexed := by
    intro key s hs
    have hsource := (Catalog.find?_foldl_declare (w.catalog.removeFile id) id
      (found.getD {}).symbols key).symm.trans hs
    show (w.files.insert id f).contains s.file = true
    rw [OrderedMap.contains_insert]
    rw [hw.owned.find?_removeFile] at hsource
    rcases Option.or_eq_some_iff.1 hsource with hown | ⟨_, hold⟩
    · obtain ⟨s', _, rfl⟩ := Option.map_eq_some_iff.1 hown
      exact if_pos rfl
    · obtain ⟨hfind, _⟩ := Option.filter_eq_some_iff.1 hold
      rw [hw.indexed key s hfind, ite_self]

theorem Filed.removed {w : Workspace} (hw : w.Filed) (id : FileId) :
    (w.perform (.removed id)).Filed where
  lookup? := fun id' f hf => hw.lookup? id' f (OrderedMap.find?_of_find?_erase hf)
  owned := hw.owned.removeFile id
  indexed := by
    intro key s hs
    have hrest := (hw.owned.find?_removeFile id key).symm.trans hs
    obtain ⟨hfind, hne⟩ := Option.filter_eq_some_iff.1 hrest
    show (w.files.erase id).contains s.file = true
    rw [OrderedMap.contains_erase, if_neg (by simpa using hne)]
    exact hw.indexed key s hfind

theorem Filed.respond {w : Workspace} (hw : w.Filed) (store : Option DeclarationStore) (c : Call) :
    (w.respond store c).2.1.Filed :=
  respond_induction (P := Filed) (fun _ _ _ digest found hid hw => hw.install hid digest found)
    (fun _ c hw => hw.prepare c) (fun _ id hw => hw.removed id) hw store c

theorem filed_afterWith (settings : Settings) (calls : List (Option DeclarationStore × Call)) :
    (afterWith settings calls).Filed := by
  have hstart := filed_ofSettings settings
  unfold afterWith
  generalize ofSettings settings = w at hstart
  induction calls generalizing w with
  | nil => exact hstart
  | cons x calls ih => exact ih _ (hstart.respond x.1 x.2)

end Workspace
end CrossReference
