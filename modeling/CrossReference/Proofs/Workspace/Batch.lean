import CrossReference.Proofs.OrderedMap
import CrossReference.Proofs.Workspace.Calls
import Mathlib.Data.List.Basic
import Mathlib.Data.List.Induction
import Mathlib.Tactic.ByContra

/-!
# Batches of files

A batch can be indexed at once or file by file. Both give the same numbers to the files and go
through them in the same order. They differ in when a file is judged to be unchanged: in a batch
against what was indexed before it, file by file against what was indexed last.

* `Workspace.setFiles_eq` and `Workspace.setEach_eq` bring both ways to one start and one list of
  numbered files, so that only the judgements are left to compare.
* `Workspace.isUnchanged_inTurn` is the judgement file by file: the last version of a path
  counts.
* `Workspace.setFiles_agrees_with_setEach` compares the results.
* `Workspace.restored_version_lost` is a batch that loses the last version of a file.
-/

namespace CrossReference

/-- The last version of a path in a list of files. -/
def SourceFile.lastVersion? (path : String) (fs : List SourceFile) : Option SourceFile :=
  (fs.filter (·.path = path)).getLast?

theorem SourceFile.lastVersion?_concat (path : String) (fs : List SourceFile) (f : SourceFile) :
    lastVersion? path (fs ++ [f]) = if f.path = path then some f else lastVersion? path fs := by
  unfold lastVersion?
  by_cases h : f.path = path
  · simp [h]
  · simp [h]

theorem SourceFile.lastVersion?_eq_none_iff {path : String} {fs : List SourceFile} :
    lastVersion? path fs = none ↔ ∀ f ∈ fs, f.path ≠ path := by
  unfold lastVersion?
  rw [List.getLast?_eq_none_iff, List.filter_eq_nil_iff]
  simp

theorem SourceFile.mem_of_lastVersion? {path : String} {fs : List SourceFile} {f : SourceFile}
    (h : lastVersion? path fs = some f) : f ∈ fs ∧ f.path = path := by
  have hmem : f ∈ fs.filter (·.path = path) := List.mem_of_getLast? h
  simpa using hmem

/-- A last version that is kept is the last one that is kept. -/
theorem SourceFile.lastVersion?_filter {path : String} {fs : List SourceFile} {f : SourceFile}
    {keep : SourceFile → Bool} (h : lastVersion? path fs = some f) (hf : keep f = true) :
    lastVersion? path (fs.filter keep) = some f := by
  unfold lastVersion? at h ⊢
  obtain ⟨before, hbefore⟩ := List.getLast?_eq_some_iff.1 h
  have hcomm : (fs.filter keep).filter (·.path = path) =
      (fs.filter (·.path = path)).filter keep := by
    rw [List.filter_filter, List.filter_filter]
    exact List.filter_congr fun g _ => Bool.and_comm _ _
  rw [hcomm, hbefore, List.filter_append, List.filter_cons_of_pos hf, List.filter_nil,
    List.getLast?_concat]

/-! ## Numbers for paths -/

namespace Registry

theorem lookup?_eq (r : Registry) (path : String) :
    r.lookup? path = if path ∈ r.paths then some ⟨r.paths.idxOf path⟩ else none := by
  unfold lookup?
  have hidx := List.idxOf_eq_getD_idxOf? path r.paths
  cases hsome : r.paths.idxOf? path with
  | none =>
      rw [if_neg (List.idxOf?_eq_none_iff.1 hsome)]
      rfl
  | some i =>
      have hmem : path ∈ r.paths := List.isSome_idxOf?.1 (by rw [hsome]; rfl)
      rw [hsome, Option.getD_some] at hidx
      rw [if_pos hmem, hidx]
      rfl

/-- The paths with one more, unless it is there. -/
def addPath (paths : List String) (path : String) : List String :=
  if path ∈ paths then paths else paths ++ [path]

theorem mem_addPath (paths : List String) (path : String) : path ∈ addPath paths path := by
  unfold addPath
  by_cases h : path ∈ paths
  · rwa [if_pos h]
  · rw [if_neg h]
    exact List.mem_append_right _ List.mem_cons_self

theorem prefix_addPath (paths : List String) (path : String) : paths <+: addPath paths path := by
  unfold addPath
  split
  · exact List.prefix_rfl
  · exact List.prefix_append _ _

theorem register_eq (r : Registry) (path : String) :
    r.register path =
      (⟨(addPath r.paths path).idxOf path⟩, { r with paths := addPath r.paths path }) := by
  unfold register addPath
  rw [lookup?_eq]
  by_cases h : path ∈ r.paths
  · simp only [if_pos h]
  · simp only [if_neg h, List.idxOf_append, List.idxOf_cons_self, Nat.zero_add]

/-- The paths with those of a list of files. -/
def addPaths (paths : List String) (fs : List SourceFile) : List String :=
  fs.foldl (fun paths f => addPath paths f.path) paths

theorem prefix_addPaths (paths : List String) (fs : List SourceFile) :
    paths <+: addPaths paths fs := by
  induction fs generalizing paths with
  | nil => exact List.prefix_rfl
  | cons f fs ih => exact (prefix_addPath paths f.path).trans (ih _)

theorem mem_addPaths {paths : List String} {fs : List SourceFile} {f : SourceFile} (hf : f ∈ fs) :
    f.path ∈ addPaths paths fs := by
  induction fs generalizing paths with
  | nil => exact absurd hf List.not_mem_nil
  | cons g fs ih =>
      rcases List.mem_cons.1 hf with rfl | hrest
      · exact (prefix_addPaths _ fs).subset (mem_addPath paths f.path)
      · exact ih hrest

/-- A path keeps its number when others are added. -/
theorem idxOf_of_isPrefix {paths more : List String} {path : String} (h : paths <+: more)
    (hmem : path ∈ paths) : more.idxOf path = paths.idxOf path := by
  obtain ⟨rest, rfl⟩ := h
  exact List.idxOf_append_of_mem hmem

end Registry

namespace Workspace

open CrossReference.Registry CrossReference.SourceFile

/-- A file with the number that its path has among `paths`. -/
def numbered (paths : List String) (f : SourceFile) : FileId × SourceFile :=
  (⟨paths.idxOf f.path⟩, f)

theorem registerAll_eq (r : Registry) (fs : List SourceFile) :
    registerAll r fs = (fs.map fun f => (numbered (addPaths r.paths fs) f).1,
      { r with paths := addPaths r.paths fs }) := by
  induction fs generalizing r with
  | nil => rfl
  | cons f fs ih =>
      have hid : (addPaths (addPath r.paths f.path) fs).idxOf f.path =
          (addPath r.paths f.path).idxOf f.path :=
        idxOf_of_isPrefix (prefix_addPaths _ fs) (mem_addPath _ _)
      simp only [registerAll, register_eq, ih, List.map_cons, numbered]
      rw [← hid]
      rfl

/-- A batch with the numbers that it is given. -/
theorem zip_registerAll (r : Registry) (fs : List SourceFile) :
    (registerAll r fs).1.zip fs = fs.map (numbered (addPaths r.paths fs)) := by
  have hmap : (fs.map fun f => (numbered (addPaths r.paths fs) f).1).zip (fs.map id) =
      fs.map fun f => ((numbered (addPaths r.paths fs) f).1, id f) := List.zip_map'
  rw [List.map_id] at hmap
  rw [registerAll_eq]
  exact hmap

/-! ## Both ways as one pass over numbered files -/

/-- Indexes files one by one. Gives their numbers. -/
def setEach (w : Workspace) : List SourceFile → List FileId × Workspace
  | [] => ([], w)
  | f :: fs =>
    let (id, w, _) := w.setFile none f
    let (ids, w) := w.setEach fs
    (id :: ids, w)

/-- The workspace with other known paths. -/
def withPaths (w : Workspace) (paths : List String) : Workspace :=
  { w with registry := { w.registry with paths := paths } }

/-- Installs a numbered file unless it is unchanged now. -/
def step (w : Workspace) (x : FileId × SourceFile) : Workspace :=
  if w.isUnchanged x.1 (Text.digest x.2.text) then w else w.perform (.installed x.1 x.2)

/-- Installs a numbered file unless it was unchanged in `start`. -/
def stepFrom (start w : Workspace) (x : FileId × SourceFile) : Workspace :=
  if start.isUnchanged x.1 (Text.digest x.2.text) then w else w.perform (.installed x.1 x.2)

/-- The workspace after each of the files had its turn. -/
def inTurn (start : Workspace) (paths : List String) (fs : List SourceFile) : Workspace :=
  (fs.map (numbered paths)).foldl step start

/-- The workspace after the files that differ from what `start` has were installed. -/
def atOnce (start : Workspace) (paths : List String) (fs : List SourceFile) : Workspace :=
  (fs.map (numbered paths)).foldl (stepFrom start) start

theorem inTurn_concat (start : Workspace) (paths : List String) (fs : List SourceFile)
    (f : SourceFile) :
    start.inTurn paths (fs ++ [f]) = (start.inTurn paths fs).step (numbered paths f) := by
  unfold inTurn
  rw [List.map_append, List.foldl_append]
  rfl

theorem atOnce_concat (start : Workspace) (paths : List String) (fs : List SourceFile)
    (f : SourceFile) :
    start.atOnce paths (fs ++ [f]) = start.stepFrom (start.atOnce paths fs) (numbered paths f) := by
  unfold atOnce
  rw [List.map_append, List.foldl_append]
  rfl

theorem step_withPaths (w : Workspace) (paths : List String) (x : FileId × SourceFile) :
    (w.withPaths paths).step x = (w.step x).withPaths paths := by
  unfold step
  rw [show (w.withPaths paths).isUnchanged = w.isUnchanged from rfl]
  split
  · rfl
  · rfl

theorem setFile_eq (w : Workspace) (f : SourceFile) :
    w.setFile none f =
      ((numbered (addPath w.registry.paths f.path) f).1,
        (w.withPaths (addPath w.registry.paths f.path)).step
          (numbered (addPath w.registry.paths f.path) f), none) := by
  unfold setFile step numbered withPaths
  rw [register_eq]
  simp only
  split
  · rfl
  · rw [declarationsOf_none_store, install_declarationsOf]
    rfl

/-- File by file, each file is judged when its turn comes. -/
theorem setEach_eq (w : Workspace) (fs : List SourceFile) :
    w.setEach fs =
      let paths := addPaths w.registry.paths fs
      (fs.map fun f => (numbered paths f).1, (w.withPaths paths).inTurn paths fs) := by
  induction fs generalizing w with
  | nil => rfl
  | cons f fs ih =>
      have hid : (addPaths (addPath w.registry.paths f.path) fs).idxOf f.path =
          (addPath w.registry.paths f.path).idxOf f.path :=
        idxOf_of_isPrefix (prefix_addPaths _ fs) (mem_addPath _ _)
      have hnumber : numbered (addPaths w.registry.paths (f :: fs)) f =
          numbered (addPath w.registry.paths f.path) f := by
        unfold numbered
        rw [← hid]
        rfl
      have hpaths : ∀ x, ((w.withPaths (addPath w.registry.paths f.path)).step x).registry.paths =
          addPath w.registry.paths f.path := by
        intro x
        rw [step_withPaths]
        rfl
      unfold inTurn at ih ⊢
      simp only [setEach, setFile_eq, ih, hpaths, List.map_cons, List.foldl_cons, hnumber]
      rw [← step_withPaths]
      rfl

theorem foldl_installations (start w : Workspace) (batch : List (FileId × SourceFile)) :
    (start.installations batch).foldl perform w = batch.foldl (stepFrom start) w := by
  induction batch generalizing w with
  | nil => rfl
  | cons x batch ih =>
      unfold installations at ih ⊢
      rw [List.foldl_cons, ← ih]
      unfold stepFrom
      cases hsame : start.isUnchanged x.1 (Text.digest x.2.text) with
      | true => simp [hsame]
      | false => simp [hsame]

theorem changes_none_store (w : Workspace) (batch : List (FileId × SourceFile)) :
    (w.changes none batch).2 = none := by
  induction batch with
  | nil => rfl
  | cons x batch ih =>
      unfold changes
      simp only [declarationsOf_none_store, ih]
      split
      · exact ih
      · rfl

/-- In a batch, each file is judged before the first is installed. -/
theorem setFiles_eq (w : Workspace) (fs : List SourceFile) :
    w.setFiles none fs =
      let paths := addPaths w.registry.paths fs
      (fs.map fun f => (numbered paths f).1, (w.withPaths paths).atOnce paths fs, none) := by
  have hzip := zip_registerAll w.registry fs
  rw [registerAll_eq] at hzip
  unfold setFiles atOnce
  rw [registerAll_eq]
  simp only [hzip, ← foldl_installations, ← foldl_install_changes, changes_none_store]
  rfl

/-! ## The judgement of a file -/

theorem isUnchanged_iff {w : Workspace} {id : FileId} {digest : String} :
    w.isUnchanged id digest = true ↔
      w.files.contains id = true ∧ w.registry.digest? id = some digest := by
  simp [isUnchanged]

theorem contains_installed (w : Workspace) (id id' : FileId) (f : SourceFile) :
    (w.perform (.installed id f)).files.contains id' =
      if id' = id then true else w.files.contains id' :=
  OrderedMap.contains_insert w.files id id' f

theorem digest?_installed (w : Workspace) (id id' : FileId) (f : SourceFile) :
    (w.perform (.installed id f)).registry.digest? id' =
      if id' = id then some (Text.digest f.text) else w.registry.digest? id' :=
  OrderedMap.find?_insert _ _ _ _

/-- After its turn a file is indexed, whether or not it was installed. -/
theorem contains_step (w : Workspace) (x : FileId × SourceFile) (id : FileId) :
    (w.step x).files.contains id = if id = x.1 then true else w.files.contains id := by
  unfold step
  split
  · rename_i hsame
    split
    · rename_i hid
      rw [hid]
      exact (isUnchanged_iff.1 hsame).1
    · rfl
  · exact contains_installed w x.1 id x.2

/-- After its turn a file has the digest of its own contents. -/
theorem digest?_step (w : Workspace) (x : FileId × SourceFile) (id : FileId) :
    (w.step x).registry.digest? id =
      if id = x.1 then some (Text.digest x.2.text) else w.registry.digest? id := by
  unfold step
  split
  · rename_i hsame
    split
    · rename_i hid
      rw [hid]
      exact (isUnchanged_iff.1 hsame).2
    · rfl
  · exact digest?_installed w x.1 id x.2

section Judgement

variable {paths : List String} (start : Workspace)

theorem numbered_eq_iff {path : String} {f : SourceFile} (hpath : path ∈ paths) :
    (⟨paths.idxOf path⟩ : FileId) = (numbered paths f).1 ↔ f.path = path := by
  unfold numbered
  rw [FileId.mk.injEq, List.idxOf_inj hpath, eq_comm]

/-- File by file, the digest of a path is that of its last version. -/
theorem digest?_inTurn {path : String} (hpath : path ∈ paths) (fs : List SourceFile) :
    (start.inTurn paths fs).registry.digest? ⟨paths.idxOf path⟩ =
      match lastVersion? path fs with
      | some f => some (Text.digest f.text)
      | none => start.registry.digest? ⟨paths.idxOf path⟩ := by
  induction fs using List.reverseRecOn with
  | nil => rfl
  | append_singleton fs f ih =>
      rw [inTurn_concat, digest?_step, ih, lastVersion?_concat]
      by_cases h : f.path = path
      · rw [if_pos ((numbered_eq_iff hpath).2 h), if_pos h]
        rfl
      · rw [if_neg (fun hid => h ((numbered_eq_iff hpath).1 hid)), if_neg h]

theorem contains_inTurn {path : String} (hpath : path ∈ paths) (fs : List SourceFile) :
    (start.inTurn paths fs).files.contains ⟨paths.idxOf path⟩ =
      ((lastVersion? path fs).isSome || start.files.contains ⟨paths.idxOf path⟩) := by
  induction fs using List.reverseRecOn with
  | nil => rfl
  | append_singleton fs f ih =>
      rw [inTurn_concat, contains_step, ih, lastVersion?_concat]
      by_cases h : f.path = path
      · rw [if_pos ((numbered_eq_iff hpath).2 h), if_pos h]
        rfl
      · rw [if_neg (fun hid => h ((numbered_eq_iff hpath).1 hid)), if_neg h]

/-- File by file, a file is judged against the last version of its path that came before. -/
theorem isUnchanged_inTurn {path : String} (hpath : path ∈ paths) (fs : List SourceFile)
    (digest : String) :
    (start.inTurn paths fs).isUnchanged ⟨paths.idxOf path⟩ digest =
      match lastVersion? path fs with
      | some f => decide (Text.digest f.text = digest)
      | none => start.isUnchanged ⟨paths.idxOf path⟩ digest := by
  unfold isUnchanged
  rw [contains_inTurn start hpath, digest?_inTurn start hpath]
  cases lastVersion? path fs with
  | none => rfl
  | some f =>
      rw [Option.isSome_some, Bool.true_or, Bool.true_and, Bool.eq_iff_iff]
      simp

/-- In a batch, only the versions count that differ from what `start` has. -/
theorem digest?_atOnce {path : String} (hpath : path ∈ paths) (fs : List SourceFile) :
    (start.atOnce paths fs).registry.digest? ⟨paths.idxOf path⟩ =
      match lastVersion? path (fs.filter fun f =>
        !start.isUnchanged (numbered paths f).1 (Text.digest f.text)) with
      | some f => some (Text.digest f.text)
      | none => start.registry.digest? ⟨paths.idxOf path⟩ := by
  induction fs using List.reverseRecOn with
  | nil => rfl
  | append_singleton fs f ih =>
      rw [atOnce_concat, List.filter_append]
      unfold stepFrom
      cases hsame : start.isUnchanged (numbered paths f).1 (Text.digest f.text) with
      | true =>
          rw [show (numbered paths f).2 = f from rfl, hsame, if_pos rfl,
            List.filter_cons_of_neg (by simp [hsame]), List.filter_nil, List.append_nil]
          exact ih
      | false =>
          rw [show (numbered paths f).2 = f from rfl, hsame, if_neg Bool.false_ne_true,
            List.filter_cons_of_pos (by simp [hsame]), List.filter_nil, lastVersion?_concat,
            digest?_installed]
          by_cases h : f.path = path
          · rw [if_pos ((numbered_eq_iff hpath).2 h), if_pos h]
          · rw [if_neg (fun hid => h ((numbered_eq_iff hpath).1 hid)), if_neg h]
            exact ih

/-- Neither way touches the digest of a number that no file has. -/
theorem digest?_inTurn_of_ne {id : FileId} {fs : List SourceFile}
    (h : ∀ f ∈ fs, id ≠ (numbered paths f).1) :
    (start.inTurn paths fs).registry.digest? id = start.registry.digest? id ∧
      (start.atOnce paths fs).registry.digest? id = start.registry.digest? id := by
  induction fs using List.reverseRecOn with
  | nil => exact ⟨rfl, rfl⟩
  | append_singleton fs f ih =>
      obtain ⟨hturn, honce⟩ := ih fun g hg => h g (List.mem_append_left _ hg)
      have hne := h f (List.mem_append_right _ List.mem_cons_self)
      refine ⟨?_, ?_⟩
      · rw [inTurn_concat, digest?_step, if_neg hne, hturn]
      · rw [atOnce_concat]
        unfold stepFrom
        split
        · exact honce
        · rw [digest?_installed, if_neg hne, honce]

end Judgement

/-! ## Files and numbers -/

/-- Every indexed file has the number of a known path. -/
def Registered (w : Workspace) : Prop :=
  ∀ id, w.files.contains id = true → id.index < w.registry.paths.length

theorem Registered.withPaths {w : Workspace} (hw : w.Registered) {paths : List String}
    (h : w.registry.paths <+: paths) : (w.withPaths paths).Registered := by
  intro id hid
  have hlt := hw id hid
  have hle : w.registry.paths.length ≤ paths.length := h.length_le
  show id.index < paths.length
  omega

theorem Registered.installed {w : Workspace} (hw : w.Registered) {id : FileId}
    (hid : id.index < w.registry.paths.length) (f : SourceFile) :
    (w.perform (.installed id f)).Registered := by
  intro id' hid'
  show id'.index < w.registry.paths.length
  rw [contains_installed] at hid'
  split at hid'
  · rename_i heq
    rwa [heq]
  · exact hw id' hid'

theorem paths_atOnce (start : Workspace) (paths : List String) (fs : List SourceFile) :
    (start.atOnce paths fs).registry.paths = start.registry.paths := by
  induction fs using List.reverseRecOn with
  | nil => rfl
  | append_singleton fs f ih =>
      rw [atOnce_concat]
      unfold stepFrom
      split
      · exact ih
      · exact ih

theorem Registered.atOnce {start : Workspace} (hstart : start.Registered) {fs : List SourceFile}
    (hfs : ∀ f ∈ fs, f.path ∈ start.registry.paths) :
    (start.atOnce start.registry.paths fs).Registered := by
  induction fs using List.reverseRecOn with
  | nil => exact hstart
  | append_singleton fs f ih =>
      rw [List.forall_mem_append, List.forall_mem_singleton] at hfs
      have hlt : (numbered start.registry.paths f).1.index <
          (start.atOnce start.registry.paths fs).registry.paths.length := by
        rw [paths_atOnce]
        exact List.idxOf_lt_length_iff.2 hfs.2
      rw [atOnce_concat]
      unfold stepFrom
      split
      · exact ih hfs.1
      · exact (ih hfs.1).installed hlt f

theorem Registered.setFiles {w : Workspace} (hw : w.Registered) (fs : List SourceFile) :
    (w.setFiles none fs).2.1.Registered := by
  rw [setFiles_eq]
  exact (hw.withPaths (prefix_addPaths _ fs)).atOnce (fun f hf => mem_addPaths hf)

theorem Registered.removeFile {w : Workspace} (hw : w.Registered) (path : String) :
    (w.removeFile none path).2.1.Registered := by
  unfold Workspace.removeFile
  split
  · exact hw
  · split
    · intro id hid
      obtain ⟨f, hf⟩ := OrderedMap.contains_iff.1 hid
      exact hw id (OrderedMap.contains_iff.2 ⟨f, OrderedMap.find?_of_find?_erase hf⟩)
    · exact hw

theorem Registered.call {w : Workspace} (hw : w.Registered) (c : Call) : (w.call c).Registered := by
  cases c with
  | setFile f =>
      -- A single file is a batch of one.
      have hsingle : (w.setFile none f).2.1 = (w.setFiles none [f]).2.1 := by
        rw [setFile_eq, setFiles_eq]
        rfl
      show (w.setFile none f).2.1.Registered
      rw [hsingle]
      exact hw.setFiles [f]
  | setFiles fs => exact hw.setFiles fs
  | removeFile path => exact hw.removeFile path
  | setSettings settings => exact hw
  | snapshot => exact hw

theorem registered_after (settings : Settings) (calls : List Call) :
    (after settings calls).Registered := by
  have hstart : (ofSettings settings).Registered := by
    intro id hid
    exact absurd hid (by simp [ofSettings, OrderedMap.contains,
      show (∅ : OrderedMap FileId SourceFile) = OrderedMap.empty from rfl])
  unfold after
  generalize ofSettings settings = w at hstart
  induction calls generalizing w with
  | nil => exact hstart
  | cons c calls ih => exact ih _ (hstart.call c)

/-! ## Comparing the two ways -/

/-- Whether a file is indexed with the contents that it has here. -/
def isIndexed (w : Workspace) (f : SourceFile) : Bool :=
  (w.registry.lookup? f.path).any fun id => w.isUnchanged id (Text.digest f.text)

/-- A path that is not known yet has no indexed file, so a batch may number its files first. -/
theorem Registered.isUnchanged_numbered {w : Workspace} (hw : w.Registered) {paths : List String}
    (hextends : w.registry.paths <+: paths) (f : SourceFile) :
    (w.withPaths paths).isUnchanged (numbered paths f).1 (Text.digest f.text) = w.isIndexed f := by
  show w.isUnchanged ⟨paths.idxOf f.path⟩ (Text.digest f.text) = w.isIndexed f
  unfold isIndexed
  rw [lookup?_eq]
  by_cases h : f.path ∈ w.registry.paths
  · rw [if_pos h, idxOf_of_isPrefix hextends h]
    rfl
  · rw [if_neg h]
    show w.isUnchanged ⟨paths.idxOf f.path⟩ (Text.digest f.text) = false
    rw [Bool.eq_false_iff]
    intro hsame
    have hlt : paths.idxOf f.path < w.registry.paths.length :=
      hw _ (isUnchanged_iff.1 hsame).1
    -- A number below the old length is that of an old path.
    obtain ⟨rest, rfl⟩ := hextends
    rw [List.idxOf_append, if_neg h] at hlt
    omega

/-- Each file that follows another version of its path is unchanged against that version exactly if
it is unchanged against what was indexed before the batch. -/
def JudgedAlike (w : Workspace) (fs : List SourceFile) : Prop :=
  ∀ before f rest, fs = before ++ f :: rest → ∀ earlier, lastVersion? f.path before = some earlier →
    (Text.digest earlier.text = Text.digest f.text ↔ w.isIndexed f = true)

theorem judgedAlike_iff {w : Workspace} {fs : List SourceFile} :
    w.JudgedAlike fs ↔ ∀ i : Fin fs.length, ∀ earlier ∈ lastVersion? (fs.get i).path (fs.take i),
      (Text.digest earlier.text = Text.digest (fs.get i).text ↔ w.isIndexed (fs.get i) = true) := by
  constructor
  · intro h i
    refine h (fs.take i) (fs.get i) (fs.drop (i + 1)) ?_
    rw [List.get_eq_getElem, List.getElem_cons_drop, List.take_append_drop]
  · rintro h before f rest rfl
    have hjudged := h ⟨before.length, by simp⟩
    simpa using hjudged

instance (w : Workspace) (fs : List SourceFile) : Decidable (w.JudgedAlike fs) :=
  decidable_of_iff _ judgedAlike_iff.symm

theorem JudgedAlike.of_concat {w : Workspace} {fs : List SourceFile} {f : SourceFile}
    (h : w.JudgedAlike (fs ++ [f])) : w.JudgedAlike fs := by
  intro before g rest hfs
  refine h before g (rest ++ [f]) ?_
  rw [hfs, List.append_assoc, List.cons_append]

/-- Where the judgements agree, so do the installations, one after the other. -/
theorem atOnce_eq_inTurn {w start : Workspace} {paths : List String} {fs : List SourceFile}
    (hpaths : ∀ f ∈ fs, f.path ∈ paths)
    (hindexed : ∀ f ∈ fs, start.isUnchanged (numbered paths f).1 (Text.digest f.text) =
      w.isIndexed f)
    (h : w.JudgedAlike fs) : start.atOnce paths fs = start.inTurn paths fs := by
  induction fs using List.reverseRecOn with
  | nil => rfl
  | append_singleton fs f ih =>
      rw [List.forall_mem_append, List.forall_mem_singleton] at hpaths hindexed
      have hjudged : (start.inTurn paths fs).isUnchanged (numbered paths f).1
          (Text.digest f.text) =
            start.isUnchanged (numbered paths f).1 (Text.digest f.text) := by
        refine (isUnchanged_inTurn start hpaths.2 fs (Text.digest f.text)).trans ?_
        cases hlast : lastVersion? f.path fs with
        | none => rfl
        | some earlier =>
            rw [hindexed.2, Bool.eq_iff_iff, decide_eq_true_eq]
            exact h fs f [] rfl earlier hlast
      rw [atOnce_concat, inTurn_concat, ih hpaths.1 hindexed.1 h.of_concat]
      unfold stepFrom step
      rw [show (numbered paths f).2 = f from rfl, hjudged]

/-- The batch ends with the indexed version of a path after it had another version of it. -/
def Restores (w : Workspace) (fs : List SourceFile) (f : SourceFile) : Prop :=
  lastVersion? f.path fs = some f ∧ w.isIndexed f = true ∧
    ∃ g ∈ fs, g.path = f.path ∧ w.isIndexed g = false

/-- At once, the digest of a path of the batch is that of its last version that was not indexed
before. -/
theorem Registered.digest?_atOnce_of_mem {w : Workspace} (hw : w.Registered) {fs : List SourceFile}
    {f : SourceFile} (hf : f ∈ fs) :
    let paths := addPaths w.registry.paths fs
    let start := w.withPaths paths
    (start.atOnce paths fs).registry.digest? (numbered paths f).1 =
      match lastVersion? f.path (fs.filter fun g => !w.isIndexed g) with
      | some g => some (Text.digest g.text)
      | none => start.registry.digest? (numbered paths f).1 := by
  intro paths start
  have hchanged : (fs.filter fun g =>
      !start.isUnchanged (numbered paths g).1 (Text.digest g.text)) =
        fs.filter fun g => !w.isIndexed g := by
    refine List.filter_congr ?_
    intro g _
    rw [hw.isUnchanged_numbered (prefix_addPaths _ fs) g]
  rw [← hchanged]
  exact digest?_atOnce start (mem_addPaths hf) fs

/-- The digests of a path agree unless the batch restores its last version. -/
theorem Registered.digest_agrees_iff {w : Workspace} (hw : w.Registered) {fs : List SourceFile}
    {f : SourceFile} (hlast : lastVersion? f.path fs = some f) :
    let paths := addPaths w.registry.paths fs
    let start := w.withPaths paths
    (start.atOnce paths fs).registry.digest? (numbered paths f).1 =
        (start.inTurn paths fs).registry.digest? (numbered paths f).1 ↔ ¬ w.Restores fs f := by
  intro paths start
  obtain ⟨hmem, _⟩ := mem_of_lastVersion? hlast
  have hindexed : ∀ g, start.isUnchanged (numbered paths g).1 (Text.digest g.text) =
      w.isIndexed g := fun g => hw.isUnchanged_numbered (prefix_addPaths _ fs) g
  have hturn : (start.inTurn paths fs).registry.digest? (numbered paths f).1 =
      some (Text.digest f.text) := by
    refine (digest?_inTurn start (mem_addPaths hmem) fs).trans ?_
    rw [hlast]
  rw [hw.digest?_atOnce_of_mem hmem, hturn]
  constructor
  · rintro hdigest ⟨_, hf, g, hg, hpath, hother⟩
    -- The last version that was installed is not the one that was indexed.
    cases hchanged : lastVersion? f.path (fs.filter fun g => !w.isIndexed g) with
    | none =>
        have hnone := lastVersion?_eq_none_iff.1 hchanged g
          (List.mem_filter.2 ⟨hg, by rw [hother]; rfl⟩)
        exact hnone hpath
    | some last =>
        rw [hchanged] at hdigest
        obtain ⟨hlastmem, hlastpath⟩ := mem_of_lastVersion? hchanged
        have hlastnew : w.isIndexed last = false := by
          simpa using (List.mem_filter.1 hlastmem).2
        have hsame : numbered paths last = ((numbered paths f).1, last) := by
          unfold numbered
          rw [hlastpath]
        rw [← hindexed, hsame, Option.some.inj hdigest, hindexed, hf] at hlastnew
        exact absurd hlastnew (by simp)
  · intro hnone
    cases hf : w.isIndexed f with
    | true =>
        -- The last version is the indexed one, so no version of the path was installed.
        have hall : lastVersion? f.path (fs.filter fun g => !w.isIndexed g) = none := by
          rw [lastVersion?_eq_none_iff]
          intro g hg hpath
          obtain ⟨hgmem, hgnew⟩ := List.mem_filter.1 hg
          exact hnone ⟨hlast, hf, g, hgmem, hpath, by simpa using hgnew⟩
        rw [hall]
        rw [← hindexed] at hf
        exact (isUnchanged_iff.1 hf).2
    | false => rw [lastVersion?_filter hlast (by rw [hf]; rfl)]

/-- The digests agree unless the batch restores a file. -/
theorem Registered.digests_agree_iff {w : Workspace} (hw : w.Registered) (fs : List SourceFile) :
    let paths := addPaths w.registry.paths fs
    let start := w.withPaths paths
    (∀ id, (start.atOnce paths fs).registry.digest? id =
        (start.inTurn paths fs).registry.digest? id) ↔ ∀ f, ¬ w.Restores fs f := by
  intro paths start
  constructor
  · intro hagree f hrestores
    exact (hw.digest_agrees_iff hrestores.1).1 (hagree _) hrestores
  · intro hnone id
    by_cases hid : ∃ f ∈ fs, id = (numbered paths f).1
    · obtain ⟨g, hg, rfl⟩ := hid
      cases hlast : lastVersion? g.path fs with
      | none => exact absurd rfl (lastVersion?_eq_none_iff.1 hlast g hg)
      | some f =>
          have hpath := (mem_of_lastVersion? hlast).2
          have hnumber : (numbered paths g).1 = (numbered paths f).1 := by
            unfold numbered
            rw [hpath]
          rw [← hpath] at hlast
          rw [hnumber]
          exact (hw.digest_agrees_iff hlast).2 (hnone f)
    · have hne : ∀ f ∈ fs, id ≠ (numbered paths f).1 := by
        intro f hf heq
        exact hid ⟨f, hf, heq⟩
      obtain ⟨hinTurn, hatOnce⟩ := digest?_inTurn_of_ne start hne
      rw [hinTurn, hatOnce]

/-- Files with different paths are judged alike, since none follows another version of its path. -/
theorem judgedAlike_of_nodup (w : Workspace) {fs : List SourceFile}
    (h : (fs.map SourceFile.path).Nodup) : w.JudgedAlike fs := by
  intro before f rest hfs earlier hearlier
  obtain ⟨hmem, hpath⟩ := mem_of_lastVersion? hearlier
  rw [hfs, List.map_append, List.map_cons, List.nodup_append] at h
  exact absurd hpath (h.2.2 _ (List.mem_map_of_mem hmem) _ List.mem_cons_self)

/-- Indexing a batch gives the same numbers as indexing its files one by one. It leaves the same
workspace if each file that follows another version of its path is judged alike against that version
and against what was indexed before, as in a batch of different paths; and the digests of the
indexed contents are the same if and only if the batch restores no file. -/
theorem setFiles_agrees_with_setEach (settings : Settings) (calls : List Call)
    (fs : List SourceFile) :
    let w := after settings calls
    (w.setFiles none fs).1 = (w.setEach fs).1 ∧
      (w.JudgedAlike fs → (w.setFiles none fs).2.1 = (w.setEach fs).2) ∧
      ((fs.map SourceFile.path).Nodup → w.JudgedAlike fs) ∧
      ((∀ id, (w.setFiles none fs).2.1.registry.digest? id =
          (w.setEach fs).2.registry.digest? id) ↔ ∀ f, ¬ w.Restores fs f) := by
  intro w
  have hw : w.Registered := registered_after settings calls
  have hextends := prefix_addPaths w.registry.paths fs
  rw [setFiles_eq, setEach_eq]
  refine ⟨rfl, ?_, w.judgedAlike_of_nodup, hw.digests_agree_iff fs⟩
  intro hjudged
  exact atOnce_eq_inTurn (fun f hf => mem_addPaths hf)
    (fun f _ => hw.isUnchanged_numbered hextends f) hjudged

/-- A version of the file `widget.php` that declares one class. -/
def widgetVersion (name : String) : SourceFile where
  path := "widget.php"
  text := "class " ++ name ++ " {}"
  tree := some [.classLike (.mk .classDecl (some ⟨name, ⟨6, 6 + name.utf8ByteSize⟩⟩) [] [] [])]

/-- A batch with two versions of an indexed file, neither of which is the indexed one, and another
file between them. -/
theorem repeated_path_batch_agrees :
    let w := after {} [.setFile (widgetVersion "First")]
    let batch := [widgetVersion "Second", { widgetVersion "Third" with path := "third.php" },
      widgetVersion "Fourth"]
    w.JudgedAlike batch ∧ (w.setFiles none batch).1 = [⟨0⟩, ⟨1⟩, ⟨0⟩] ∧
      (w.setFiles none batch).2.1 = (w.setEach batch).2 ∧
      ((w.setFiles none batch).2.1.files.find? ⟨0⟩).map SourceFile.text =
        some "class Fourth {}" := by
  intro w batch
  have hjudged : w.JudgedAlike batch := by decide +kernel
  have hsame := (setFiles_agrees_with_setEach {} [.setFile (widgetVersion "First")] batch).2.1
    hjudged
  exact ⟨hjudged, by decide +kernel, hsame, by decide +kernel⟩

/-- The indexed version is replaced in a batch and comes back at its end. One by one it is indexed
again, but the batch keeps the other version. -/
theorem restored_version_lost :
    let w := after {} [.setFile (widgetVersion "First")]
    let batch := [widgetVersion "Second", widgetVersion "First"]
    ((w.setFiles none batch).2.1.files.find? ⟨0⟩).map SourceFile.text = some "class Second {}" ∧
      ((w.setEach batch).2.files.find? ⟨0⟩).map SourceFile.text = some "class First {}" ∧
      (w.setFiles none batch).2.1.catalog.hasType "First" = false ∧
      (w.setEach batch).2.catalog.hasType "First" = true :=
  ⟨by decide +kernel, by decide +kernel, by decide +kernel, by decide +kernel⟩

end Workspace
end CrossReference
