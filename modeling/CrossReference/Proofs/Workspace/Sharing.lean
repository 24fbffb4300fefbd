import CrossReference.Proofs.Workspace.Contents
import Mathlib.Logic.Function.Basic
import Mathlib.Tactic.Tauto

/-!
# Workspaces that share a store

Several workspaces may take the declarations of files from one store. What a workspace finds there
was often collected by another one, under another number, and it may be replaced or dropped at any
time. None of this shows: each workspace ends as if it had collected everything itself, provided
that the same text of a path always comes with the same tree and that digests tell texts apart.

* `DeclarationStore.Truthful` is the invariant of the store: each entry is what some file that was
  passed declares, under some number.
* `Workspace.respond_of_truthful` is the step lemma: a truthful store changes no answer and no
  workspace, and stays truthful.
* `Workspace.Group.run_eq_alone` is the run lemma, for every interleaving of calls.
-/

namespace CrossReference

/-- Two files with the same text and tree declare the same under each number. -/
theorem SourceFile.declarations_congr {f g : SourceFile} (htext : f.text = g.text)
    (htree : f.tree = g.tree) (id : FileId) : f.declarations id = g.declarations id := by
  unfold SourceFile.declarations
  rw [htext, htree]

/-- Among these files the path and the digest of the text determine the text and the tree. -/
structure SourceFile.Coherent (files : List SourceFile) : Prop where
  tree_eq : ∀ f ∈ files, ∀ g ∈ files, f.path = g.path → f.text = g.text → f.tree = g.tree
  text_eq : ∀ f ∈ files, ∀ g ∈ files, Text.digest f.text = Text.digest g.text → f.text = g.text

namespace DeclarationStore

/-- Each entry is what one of the files declares, under some number. -/
def Truthful (files : List SourceFile) (s : DeclarationStore) : Prop :=
  ∀ path digest found, s.entries.find? path = some (digest, found) →
    ∃ f ∈ files, f.path = path ∧ Text.digest f.text = digest ∧ ∃ id, found = f.declarations id

variable {files : List SourceFile} {s : DeclarationStore}

theorem truthful_empty : (∅ : DeclarationStore).Truthful files := by
  intro path digest found h
  exact absurd h (by simp [show (∅ : DeclarationStore).entries = OrderedMap.empty from rfl])

/-- Dropping an entry does no harm. -/
theorem Truthful.erase (hs : s.Truthful files) (path : String) :
    ({ entries := s.entries.erase path } : DeclarationStore).Truthful files := by
  intro path' digest found h
  exact hs path' digest found (OrderedMap.find?_of_find?_erase h)

theorem Truthful.put (hs : s.Truthful files) {f : SourceFile} (hf : f ∈ files) (id : FileId) :
    (s.put f.path (Text.digest f.text) (f.declarations id)).Truthful files := by
  intro path digest found h
  have hentry : (s.entries.insert f.path (Text.digest f.text, f.declarations id)).find? path =
      some (digest, found) := h
  rw [OrderedMap.find?_insert] at hentry
  split at hentry
  · rename_i hpath
    obtain ⟨rfl, rfl⟩ := Prod.mk.inj (Option.some.inj hentry)
    exact ⟨f, hf, hpath.symm, rfl, id, rfl⟩
  · exact hs path digest found hentry

theorem Truthful.fetch (hs : s.Truthful files) (path digest : String) :
    (s.fetch path digest).2.Truthful files := by
  unfold DeclarationStore.fetch
  split
  · exact hs
  · split
    · exact hs
    · exact hs.erase path

/-- What the store gives for a file is what the file declares, under some number. -/
theorem Truthful.eq_of_fetch (hs : s.Truthful files) (hfiles : SourceFile.Coherent files)
    {f : SourceFile} (hf : f ∈ files) {found : Declarations}
    (h : (s.fetch f.path (Text.digest f.text)).1 = some found) :
    ∃ id, found = f.declarations id := by
  unfold DeclarationStore.fetch at h
  split at h
  · exact absurd h (by simp)
  · rename_i digest stored hentry
    split at h
    · rename_i hdigest
      obtain ⟨g, hg, hpath, htext, id, hstored⟩ := hs f.path digest stored hentry
      have hsame : g.text = f.text := hfiles.text_eq g hg f hf (htext.trans hdigest)
      have htree : g.tree = f.tree := hfiles.tree_eq g hg f hf hpath hsame
      refine ⟨id, ?_⟩
      rw [← Option.some.inj h, hstored, SourceFile.declarations_congr hsame htree]
    · exact absurd h (by simp)

end DeclarationStore

namespace Workspace

open CrossReference.SourceFile CrossReference.DeclarationStore

/-! ## Calls with a store -/

/-- What the caller is told. -/
inductive Answer where
  | number (id : FileId)
  | numbers (ids : List FileId)
  | wasIndexed (found : Bool)
  | silent
deriving DecidableEq

/-- A call on a workspace that uses the given store, if any. -/
def respond (w : Workspace) (store : Option DeclarationStore) :
    Call → Answer × Workspace × Option DeclarationStore
  | .setFile f => (.number (w.setFile store f).1, (w.setFile store f).2)
  | .setFiles fs => (.numbers (w.setFiles store fs).1, (w.setFiles store fs).2)
  | .removeFile path => (.wasIndexed (w.removeFile store path).1, (w.removeFile store path).2)
  | .setSettings settings => (.silent, w.setSettings settings, store)
  | .snapshot => (.silent, w.linked, store)

/-- The files that are passed with a call. -/
def Call.files : Call → List SourceFile
  | .setFile f => [f]
  | .setFiles fs => fs
  | .removeFile _ | .setSettings _ | .snapshot => []

/-- A file takes possession of the declarations, whatever number they carry. -/
theorem declareAll_declarations (c : Catalog) (f : SourceFile) (id id' : FileId) :
    declareAll c id (f.declarations id') = declareAll c id (f.declarations id) := by
  unfold declareAll
  rw [f.declarations_eq id', f.declarations_eq id]
  simp only [List.foldl_map]
  rfl

section Truthful

variable {files : List SourceFile} {s : DeclarationStore}

/-- Declarations out of a truthful store are as good as collected ones. -/
theorem declarationsOf_of_truthful (hfiles : Coherent files) (hs : s.Truthful files)
    {f : SourceFile} (hf : f ∈ files) (id : FileId) :
    ∃ s', (declarationsOf (some s) f id (Text.digest f.text)).2 = some s' ∧ s'.Truthful files ∧
      ∀ w : Workspace,
        w.install id f (Text.digest f.text)
            (declarationsOf (some s) f id (Text.digest f.text)).1 =
          w.install id f (Text.digest f.text)
            (declarationsOf none f id (Text.digest f.text)).1 := by
  unfold declarationsOf
  cases htree : f.tree with
  | none => exact ⟨s, rfl, hs, fun _ => rfl⟩
  | some stmts =>
      have hcollected : Declarations.collect id (.ofText f.text) stmts = f.declarations id := by
        unfold SourceFile.declarations
        rw [htree]
        rfl
      have hkept := hs.fetch f.path (Text.digest f.text)
      simp only [hcollected]
      cases hfetch : s.fetch f.path (Text.digest f.text) with
      | mk found s' =>
          rw [hfetch] at hkept
          cases found with
          | none => exact ⟨_, rfl, hkept.put hf id, fun _ => rfl⟩
          | some found =>
              obtain ⟨id', hfound⟩ := hs.eq_of_fetch hfiles hf (congrArg Prod.fst hfetch)
              refine ⟨s', rfl, hkept, ?_⟩
              intro w
              -- The entry may carry the number of another workspace's file.
              unfold install
              rw [hfound, Option.getD_some, Option.getD_some, declareAll_declarations]

theorem changes_of_truthful (hfiles : Coherent files) (hs : s.Truthful files) (w : Workspace)
    {batch : List (FileId × SourceFile)} (hbatch : ∀ x ∈ batch, x.2 ∈ files) :
    ∃ s', (w.changes (some s) batch).2 = some s' ∧ s'.Truthful files ∧ ∀ start : Workspace,
      (w.changes (some s) batch).1.foldl (fun w c => w.install c.id c.file c.digest c.found) start =
        (w.changes none batch).1.foldl (fun w c => w.install c.id c.file c.digest c.found)
          start := by
  induction batch generalizing s with
  | nil => exact ⟨s, rfl, hs, fun _ => rfl⟩
  | cons x batch ih =>
      obtain ⟨id, f⟩ := x
      obtain ⟨hf, hrest⟩ := List.forall_mem_cons.1 hbatch
      unfold changes
      cases hsame : w.isUnchanged id (Text.digest f.text) with
      | true =>
          simp only [hsame, if_true]
          exact ih hs hrest
      | false =>
          obtain ⟨s', hstore, hs', hinstall⟩ := declarationsOf_of_truthful hfiles hs hf id
          obtain ⟨s'', hstore', hs'', hfold⟩ := ih hs' hrest
          simp only [hsame, Bool.false_eq_true, if_false, hstore, declarationsOf_none_store,
            List.foldl_cons]
          refine ⟨s'', hstore', hs'', ?_⟩
          intro start
          rw [hfold, hinstall]

theorem setFile_of_truthful (hfiles : Coherent files) (hs : s.Truthful files) (w : Workspace)
    {f : SourceFile} (hf : f ∈ files) :
    ∃ s', w.setFile (some s) f = ((w.setFile none f).1, (w.setFile none f).2.1, some s') ∧
      s'.Truthful files := by
  unfold setFile
  simp only
  obtain ⟨s', hstore, hs', hinstall⟩ :=
    declarationsOf_of_truthful hfiles hs hf (w.registry.register f.path).1
  split
  · exact ⟨s, rfl, hs⟩
  · exact ⟨s', by rw [hstore, hinstall], hs'⟩

theorem setFiles_of_truthful (hfiles : Coherent files) (hs : s.Truthful files) (w : Workspace)
    {fs : List SourceFile} (hfs : ∀ f ∈ fs, f ∈ files) :
    ∃ s', w.setFiles (some s) fs = ((w.setFiles none fs).1, (w.setFiles none fs).2.1, some s') ∧
      s'.Truthful files := by
  have hbatch : ∀ x ∈ (registerAll w.registry fs).1.zip fs, x.2 ∈ files := by
    intro x hx
    exact hfs x.2 (List.of_mem_zip hx).2
  obtain ⟨s', hstore, hs', hfold⟩ := changes_of_truthful hfiles hs
    { w with registry := (registerAll w.registry fs).2 } hbatch
  refine ⟨s', ?_, hs'⟩
  unfold setFiles
  simp only
  rw [hstore, hfold]

theorem removeFile_of_truthful (hs : s.Truthful files) (w : Workspace) (path : String) :
    ∃ s', w.removeFile (some s) path =
        ((w.removeFile none path).1, (w.removeFile none path).2.1, some s') ∧
      s'.Truthful files := by
  unfold removeFile
  split
  · exact ⟨s, rfl, hs⟩
  · split
    · exact ⟨s.invalidate path, rfl, hs.erase path⟩
    · exact ⟨s, rfl, hs⟩

/-- A truthful store changes neither the answer nor the workspace, and stays truthful. -/
theorem respond_of_truthful (hfiles : Coherent files) (hs : s.Truthful files) (w : Workspace)
    {c : Call} (hc : ∀ f ∈ c.files, f ∈ files) :
    ∃ s', w.respond (some s) c = ((w.respond none c).1, (w.respond none c).2.1, some s') ∧
      s'.Truthful files := by
  cases c with
  | setFile f =>
      obtain ⟨s', heq, hs'⟩ := setFile_of_truthful hfiles hs w (hc f List.mem_cons_self)
      exact ⟨s', by simp only [respond, heq], hs'⟩
  | setFiles fs =>
      have hfs : ∀ f ∈ fs, f ∈ files := hc
      obtain ⟨s', heq, hs'⟩ := setFiles_of_truthful hfiles hs w hfs
      exact ⟨s', by simp only [respond, heq], hs'⟩
  | removeFile path =>
      obtain ⟨s', heq, hs'⟩ := removeFile_of_truthful hs w path
      exact ⟨s', by simp only [respond, heq], hs'⟩
  | setSettings settings => exact ⟨s, rfl, hs⟩
  | snapshot => exact ⟨s, rfl, hs⟩

end Truthful

/-! ## Groups of workspaces -/

/-- The answers to a sequence of calls on a workspace without a store, and how it ends. -/
def runAlone (w : Workspace) : List Call → List Answer × Workspace
  | [] => ([], w)
  | c :: calls =>
    let (answer, w, _) := w.respond none c
    let (answers, w) := w.runAlone calls
    (answer :: answers, w)

/-- Workspaces with one store. -/
structure Group (ι : Type) where
  workspaces : ι → Workspace
  store : DeclarationStore := ∅

namespace Group

variable {ι : Type} [DecidableEq ι]

omit [DecidableEq ι] in
/-- New workspaces with an empty store. -/
def new (settings : ι → Settings) : Group ι where
  workspaces i := ofSettings (settings i)

/-- A call on one of the workspaces. -/
def call (g : Group ι) (i : ι) (c : Call) : Answer × Group ι :=
  let (answer, w, store) := (g.workspaces i).respond (some g.store) c
  (answer, { workspaces := Function.update g.workspaces i w, store := store.getD ∅ })

/-- Calls on the workspaces in any order, each with its answer. -/
def run (g : Group ι) : List (ι × Call) → List (ι × Answer) × Group ι
  | [] => ([], g)
  | (i, c) :: trace =>
    let (answer, g) := g.call i c
    let (answers, g) := g.run trace
    ((i, answer) :: answers, g)

/-- The part of a trace that concerns one workspace. -/
def only {α : Type} (i : ι) (trace : List (ι × α)) : List α :=
  (trace.filter (·.1 = i)).map Prod.snd

theorem only_cons_self {α : Type} (i : ι) (x : α) (trace : List (ι × α)) :
    only i ((i, x) :: trace) = x :: only i trace := by
  simp [only]

theorem only_cons_of_ne {α : Type} {i j : ι} (h : j ≠ i) (x : α) (trace : List (ι × α)) :
    only i ((j, x) :: trace) = only i trace := by
  simp [only, h]

omit [DecidableEq ι] in
/-- The files that are passed in a trace. -/
def passed (trace : List (ι × Call)) : List SourceFile :=
  trace.flatMap fun x => x.2.files

/-- From a truthful store each workspace of a group goes the way that it would go alone. -/
theorem run_eq_alone {files : List SourceFile} (hfiles : Coherent files) {g : Group ι}
    (hg : g.store.Truthful files) {trace : List (ι × Call)} (htrace : ∀ f ∈ passed trace, f ∈ files)
    (i : ι) :
    (only i (g.run trace).1, (g.run trace).2.workspaces i) =
      (g.workspaces i).runAlone (only i trace) := by
  induction trace generalizing g with
  | nil => rfl
  | cons x trace ih =>
      obtain ⟨j, c⟩ := x
      unfold passed at htrace ih
      rw [List.flatMap_cons, List.forall_mem_append] at htrace
      obtain ⟨s', hrespond, hs'⟩ := respond_of_truthful hfiles hg (g.workspaces j) htrace.1
      let next : Group ι :=
        { workspaces := Function.update g.workspaces j ((g.workspaces j).respond none c).2.1
          store := s' }
      have hcall : g.call j c = (((g.workspaces j).respond none c).1, next) := by
        unfold call
        rw [hrespond]
        rfl
      have hnext := ih (g := next) hs' htrace.2
      simp only [run, hcall]
      by_cases hj : j = i
      · subst hj
        have hown : next.workspaces j = ((g.workspaces j).respond none c).2.1 :=
          Function.update_self ..
        rw [hown] at hnext
        simp only [only_cons_self, runAlone]
        rw [← hnext]
      · -- A call on another workspace leaves this one alone.
        have hother : next.workspaces i = g.workspaces i := Function.update_of_ne (Ne.symm hj) ..
        rw [hother] at hnext
        rw [only_cons_of_ne hj, only_cons_of_ne hj]
        exact hnext

/-- Workspaces that share a store answer and end like workspaces without one, for every interleaving
of their calls: the same text of a path must always come with the same tree, and no two texts may
have the same digest. -/
theorem shared_store_transparent (settings : ι → Settings) (trace : List (ι × Call))
    (htrees : ∀ f ∈ passed trace, ∀ g ∈ passed trace,
      f.path = g.path → f.text = g.text → f.tree = g.tree)
    (hdigests : ∀ f ∈ passed trace, ∀ g ∈ passed trace,
      Text.digest f.text = Text.digest g.text → f.text = g.text) (i : ι) :
    ((new settings).run trace).2.workspaces i =
        ((ofSettings (settings i)).runAlone (only i trace)).2 ∧
      only i ((new settings).run trace).1 =
        ((ofSettings (settings i)).runAlone (only i trace)).1 := by
  have hrun := run_eq_alone (g := new settings) ⟨htrees, hdigests⟩ truthful_empty
    (fun _ hf => hf) i
  rw [show (new settings).workspaces i = ofSettings (settings i) from rfl] at hrun
  rw [← hrun]
  exact ⟨rfl, rfl⟩

/-- Two workspaces that index the same two files under different numbers. One of them drops a file
before the other indexes it again. -/
def relay : List (Bool × Call) :=
  [(false, .setFile (widgetFile "first.php")), (false, .setFile (widgetVersion "First")),
    (true, .setFile (widgetVersion "First")), (false, .removeFile "widget.php"),
    (true, .setFiles [widgetFile "first.php", widgetVersion "First"])]

theorem mem_passed_relay {f : SourceFile} (h : f ∈ passed relay) :
    f = widgetFile "first.php" ∨ f = widgetVersion "First" := by
  simp only [passed, relay, Call.files, List.flatMap_cons, List.flatMap_nil, List.append_nil,
    List.mem_append, List.mem_cons, List.not_mem_nil, or_false, false_or] at h
  tauto

/-- The second workspace takes over both entries and gives them its own numbers. -/
theorem foreign_entries_adopted :
    let w := ((new fun _ => {}).run relay).2.workspaces true
    w.catalog.symbols.values.map (fun s => (s.qualifiedName, s.file)) =
        [("First", ⟨0⟩), ("Widget", ⟨1⟩)] ∧
      w = ((ofSettings {}).runAlone (only true relay)).2 ∧
      only true ((new fun _ => {}).run relay).1 =
        ((ofSettings {}).runAlone (only true relay)).1 := by
  refine ⟨by decide +kernel,
    shared_store_transparent (fun _ => {}) relay ?_ (by decide +kernel) true⟩
  intro f hf g hg hpath htext
  rcases mem_passed_relay hf with rfl | rfl
  · rcases mem_passed_relay hg with rfl | rfl
    · rfl
    · exact absurd hpath (by decide)
  · rcases mem_passed_relay hg with rfl | rfl
    · exact absurd hpath (by decide)
    · rfl

end Group
end Workspace
end CrossReference
