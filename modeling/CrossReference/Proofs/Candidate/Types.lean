import CrossReference.Proofs.Candidate.Probe
import CrossReference.Proofs.Workspace.Calls
import Mathlib.Tactic.TFAE

/-!
# Candidates for a type

The candidates for a type are the files that contain the last part of its name. A file may have
sites of the type and yet be no candidate, since types are also reached through declarations. It is
shown exactly when that cannot happen: no name of the type may be reached without its last part.

* `candidates_complete_for_type_iff` is the exact condition.
* `returned_type_site_dropped` is a file with a site that is no candidate.
-/

namespace CrossReference

open CrossReference.Tree

/-! ## The exact condition -/

/-- The sites of the files at the given places, each with the place of its file. -/
def Search.sitesIn (s : Search) (files : List SourceFile) (places : List Nat) :
    List (Nat × Context × Site) :=
  places.flatMap fun i => (s.sites ((files[i]?.map SourceFile.stmts).getD [])).map (Prod.mk i)

theorem flatMap_filter_of_eq_nil {α β : Type} {f : α → List β} {keep : α → Bool} {items : List α}
    (h : ∀ x ∈ items, keep x = false → f x = []) :
    (items.filter keep).flatMap f = items.flatMap f := by
  induction items with
  | nil => rfl
  | cons x items ih =>
      rw [List.forall_mem_cons] at h
      by_cases hx : keep x = true
      · rw [List.filter_cons_of_pos hx, List.flatMap_cons, List.flatMap_cons, ih h.2]
      · have hfx : f x = [] := h.1 (by simpa using hx)
        rw [List.filter_cons_of_neg hx, List.flatMap_cons, ih h.2, hfx, List.nil_append]

/-- For a type, these are equivalent: no faithful file with a site is ever dropped; searching the
candidates finds what searching all files finds; and no name of the type is reached without the last
part of that name. -/
theorem candidates_complete_for_type_iff (c : Catalog) (settings : Settings) (subject : String) :
    List.TFAE [
      ∀ files : List SourceFile, (∀ f ∈ files, f.IsFaithful) → ∀ i f, files[i]? = some f →
        (Search.ofQuery c settings (.type subject)).sites f.stmts ≠ [] →
        i ∈ candidates settings (.type subject) (files.map SourceFile.text),
      ∀ files : List SourceFile, (∀ f ∈ files, f.IsFaithful) →
        (Search.ofQuery c settings (.type subject)).sitesIn files
            (candidates settings (.type subject) (files.map SourceFile.text)) =
          (Search.ofQuery c settings (.type subject)).sitesIn files (List.range files.length),
      Name.lastPart subject = "" ∨ ∀ name, c.ReachedWithout (Name.lastPart subject) name →
        Name.same name subject = false] := by
  have hword := Name.separator_not_mem_lastPart subject
  tfae_have 1 → 2 := by
    intro hkept files hfaithful
    rw [candidates_type, List.length_map]
    apply flatMap_filter_of_eq_nil
    intro i hi hdropped
    have hi : i < files.length := List.mem_range.1 hi
    have hf : files[i]? = some files[i] := List.getElem?_eq_getElem hi
    have htext : (files.map SourceFile.text)[i]? = some files[i].text := by simp [hf]
    -- A site in the file would make it a candidate.
    have hsites : (Search.ofQuery c settings (.type subject)).sites files[i].stmts = [] := by
      by_contra hsites
      have hmem := hkept files hfaithful i files[i] hf hsites
      rw [mem_candidates_type_iff htext] at hmem
      simp [hi, hmem] at hdropped
    simp [hf, hsites]
  tfae_have 2 → 1 := by
    intro heq files hfaithful i f hf hsites
    obtain ⟨found, hfound⟩ := List.exists_mem_of_ne_nil _ hsites
    have hi : i < files.length := (List.getElem?_eq_some_iff.1 hf).1
    have hmem : (i, found) ∈ (Search.ofQuery c settings (.type subject)).sitesIn files
        (List.range files.length) :=
      List.mem_flatMap.2 ⟨i, List.mem_range.2 hi, by simpa [hf] using hfound⟩
    rw [← heq files hfaithful] at hmem
    obtain ⟨j, hj, hpair⟩ := List.mem_flatMap.1 hmem
    obtain ⟨_, _, hji⟩ := List.mem_map.1 hpair
    rwa [← (Prod.mk.inj hji).1]
  tfae_have 1 → 3 := by
    intro hkept
    rw [or_iff_not_imp_left]
    intro hne name hreached
    rw [Bool.eq_false_iff]
    intro hsame
    -- The way to the name gives a file that shows the loss.
    obtain ⟨f, hfaithful, hlacks, hsites⟩ :=
      Probe.exists_site_without settings hword hne hreached hsame
    have hmem := hkept [f] (by simpa using hfaithful) 0 f rfl hsites
    rw [mem_candidates_type_iff rfl, hlacks] at hmem
    exact absurd hmem Bool.false_ne_true
  tfae_have 3 → 1 := by
    intro hcond files hfaithful i f hf hsites
    have htext : (files.map SourceFile.text)[i]? = some f.text := by simp [hf]
    rw [mem_candidates_type_iff htext]
    by_contra hlacks
    have hne : Name.lastPart subject ≠ "" := by
      intro hempty
      rw [hempty] at hlacks
      exact hlacks (Patterns.containsFolded_iff.2 List.nil_infix)
    obtain ⟨name, hreached, hsame⟩ := Catalog.ReachedWithout.of_site hword hne
      (hfaithful f (List.mem_of_getElem? hf)) (Bool.eq_false_iff.2 hlacks) hsites
    rw [hcond.resolve_left hne name hreached] at hsame
    exact absurd hsame Bool.false_ne_true
  tfae_finish

/-- A file that declares the class `Widget` and a function that returns one. -/
def declaringFile : SourceFile where
  path := "decl.php"
  text := "class Widget {} function make(): Widget {}"
  tree := some
    [.classLike (.mk .classDecl (some ⟨"Widget", ⟨6, 12⟩⟩) [] [] []),
      .function ⟨"make", ⟨25, 29⟩⟩ [] (some (.named ⟨"Widget", ⟨33, 39⟩⟩)) []]

/-- A file that makes an object of the class that the function returns. -/
def callingFile : SourceFile where
  path := "use.php"
  text := "new (make())"
  tree := some [.expr (.new (.dynamic (.call (.named ⟨"make", ⟨5, 9⟩⟩) [] ⟨5, 11⟩)) [] ⟨0, 12⟩)]

/-- The second file has a site of `Widget` and is dropped, since it never mentions the class. -/
theorem returned_type_site_dropped :
    let files := [declaringFile, callingFile]
    let c := (Workspace.after {} [.setFiles files, .snapshot]).catalog
    (∀ f ∈ files, f.IsFaithful) ∧
      ((Search.ofQuery c {} (.type "Widget")).sites callingFile.stmts).length = 1 ∧
      candidates {} (.type "Widget") (files.map SourceFile.text) = [0] :=
  ⟨by decide +kernel, by decide +kernel, by decide +kernel⟩

end CrossReference
