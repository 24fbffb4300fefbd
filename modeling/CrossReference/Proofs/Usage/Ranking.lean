import CrossReference.Proofs.Report
import Mathlib.Data.String.Basic

/-!
# What a ranking holds

A ranking keeps one usage for each site and kind. The usages are sorted first, and then all but the
first of each identity are dropped. The identity of a usage is not what it is sorted by: two usages
of one site may lie far apart in the sorted list. What is kept is nevertheless the best of its
identity, because confidence comes first in the order.

* `ScoredUsage.mem_firstOfEach_iff` says which usages are kept, and
  `ScoredUsage.mem_identities_firstOfEach_iff` that every identity is.
* `ScoredUsage.isLE_compare_iff` spells out the order of the report.
* `ScoredUsage.rank_keeps_best_of_each` is the result.
-/

namespace CrossReference
namespace ScoredUsage

/-! ## The first of each identity -/

theorem firstOfEach_sublist (seen : List (String × Span × UsageKind)) (us : List ScoredUsage) :
    (firstOfEach seen us).Sublist us := by
  fun_induction firstOfEach seen us with
  | case1 => exact .slnil
  | case2 _ u us _ ih => exact ih.cons u
  | case3 _ u us _ ih => exact ih.cons_cons u

/-- What is kept is the first of its identity. -/
theorem mem_firstOfEach_iff {seen : List (String × Span × UsageKind)} {us : List ScoredUsage}
    {u : ScoredUsage} : u ∈ firstOfEach seen us ↔
      u.identity ∉ seen ∧ us.find? (fun v => v.identity = u.identity) = some u := by
  fun_induction firstOfEach seen us with
  | case1 => simp
  | case2 seen v us hseen ih =>
      rw [ih, List.find?_cons]
      by_cases hv : v.identity = u.identity
      · simp [← hv, hseen]
      · simp [hv]
  | case3 seen v us hseen ih =>
      rw [List.mem_cons, ih, List.find?_cons]
      by_cases hv : v.identity = u.identity
      · -- Only `v` itself is kept of its identity.
        have hnew : u.identity ∉ seen := hv ▸ hseen
        simp [hv, hnew, eq_comm]
      · have hne : u ≠ v := fun heq => hv (heq ▸ rfl)
        simp [hv, hne, Ne.symm hv]

theorem mem_identities_firstOfEach_iff {seen : List (String × Span × UsageKind)}
    {us : List ScoredUsage} {k : String × Span × UsageKind} :
    k ∈ (firstOfEach seen us).map identity ↔ k ∉ seen ∧ k ∈ us.map identity := by
  fun_induction firstOfEach seen us with
  | case1 => simp
  | case2 seen v us hseen ih =>
      rw [ih, List.map_cons, List.mem_cons]
      constructor
      · exact fun h => ⟨h.1, .inr h.2⟩
      · rintro ⟨hk, rfl | hmem⟩
        · exact absurd hseen hk
        · exact ⟨hk, hmem⟩
  | case3 seen v us hseen ih =>
      rw [List.map_cons, List.map_cons, List.mem_cons, List.mem_cons, ih, List.mem_cons]
      by_cases hk : k = v.identity
      · simp [hk, hseen]
      · simp [hk]

theorem nodup_identities_firstOfEach (seen : List (String × Span × UsageKind))
    (us : List ScoredUsage) : ((firstOfEach seen us).map identity).Nodup := by
  fun_induction firstOfEach seen us with
  | case1 => exact List.nodup_nil
  | case2 _ _ _ _ ih => exact ih
  | case3 seen v us _ ih =>
      rw [List.map_cons, List.nodup_cons]
      refine ⟨?_, ih⟩
      intro hmem
      exact (mem_identities_firstOfEach_iff.1 hmem).1 List.mem_cons_self

/-! ## The order of the report -/

/-- `a` may stand before `b`: it has the better confidence, or the same and the smaller path, line,
column and kind, of which the first that differs decides. -/
def MayPrecede (a b : ScoredUsage) : Prop :=
  a.confidence.rank < b.confidence.rank ∨ a.confidence.rank = b.confidence.rank ∧
    (a.path < b.path ∨ a.path = b.path ∧
      (a.line < b.line ∨ a.line = b.line ∧
        (a.column < b.column ∨ a.column = b.column ∧ a.kind.order ≤ b.kind.order)))

theorem isLE_compare_iff {a b : ScoredUsage} :
    (compare a b).isLE = true ↔ a.MayPrecede b := by
  unfold compare MayPrecede
  simp only [Ordering.isLE_then_iff_or, Nat.isLE_compare, compare_lt_iff_lt, compare_eq_iff_eq]

theorem MayPrecede.rank_le {a b : ScoredUsage} (h : a.MayPrecede b) :
    a.confidence.rank ≤ b.confidence.rank := by
  rcases h with hlt | ⟨heq, _⟩
  · exact hlt.le
  · exact heq.le

/-- The usages in the order of the report, before anything is dropped. -/
def sorted (us : List ScoredUsage) : List ScoredUsage :=
  us.mergeSort fun a b => (compare a b).isLE

theorem sorted_perm (us : List ScoredUsage) : (sorted us).Perm us :=
  List.mergeSort_perm ..

theorem pairwise_sorted (us : List ScoredUsage) : (sorted us).Pairwise MayPrecede :=
  (pairwise_sorted_by compare us).imp isLE_compare_iff.1

/-- The first of an identity in a sorted list has the best confidence of them all. -/
theorem rank_le_of_find? {us : List ScoredUsage} (hsorted : us.Pairwise MayPrecede)
    {u v : ScoredUsage} (hu : us.find? (fun w => w.identity = u.identity) = some u) (hv : v ∈ us)
    (hsame : v.identity = u.identity) : u.confidence.rank ≤ v.confidence.rank := by
  obtain ⟨_, before, after, rfl, hbefore⟩ := List.find?_eq_some_iff_append.1 hu
  have hnot : v ∉ before := fun hmem => by simpa [hsame] using hbefore v hmem
  rcases List.mem_append.1 hv with hmem | hmem
  · exact absurd hmem hnot
  · rcases List.mem_cons.1 hmem with rfl | hafter
    · exact le_rfl
    · have htail := (List.pairwise_append.1 hsorted).2.1
      exact ((List.pairwise_cons.1 htail).1 v hafter).rank_le

/-! ## Rankings -/

theorem mem_of_mem_rank {us : List ScoredUsage} {u : ScoredUsage} (h : u ∈ rank us) : u ∈ us :=
  (sorted_perm us).mem_iff.1 ((firstOfEach_sublist [] (sorted us)).mem h)

/-- No identity is lost. -/
theorem mem_identities_rank_iff {us : List ScoredUsage} {k : String × Span × UsageKind} :
    k ∈ (rank us).map identity ↔ k ∈ us.map identity := by
  have hkept : k ∈ (rank us).map identity ↔ k ∉ [] ∧ k ∈ (sorted us).map identity :=
    mem_identities_firstOfEach_iff
  rw [hkept, ((sorted_perm us).map identity).mem_iff]
  simp

/-- Each identity is kept once. -/
theorem count_identity_rank (us : List ScoredUsage) (k : String × Span × UsageKind) :
    ((rank us).map identity).count k = if k ∈ us.map identity then 1 else 0 := by
  split
  · rename_i hk
    exact List.count_eq_one_of_mem (nodup_identities_firstOfEach [] (sorted us))
      (mem_identities_rank_iff.2 hk)
  · rename_i hk
    exact List.count_eq_zero.2 fun h => hk (mem_identities_rank_iff.1 h)

/-- The usages that were found in one file. -/
structure InFile where
  path : String
  usages : List ScoredUsage
  path_eq : ∀ u ∈ usages, u.path = path

/-- A ranking is made of the given usages, in the order of the report. Each identity among them is
kept once, with its best confidence. In which order the files were searched makes no difference. -/
theorem rank_keeps_best_of_each :
    (∀ us : List ScoredUsage,
      (∃ all, all.Perm us ∧ (rank us).Sublist all) ∧
      (rank us).Pairwise MayPrecede ∧
      (∀ k, ((rank us).map identity).count k = if k ∈ us.map identity then 1 else 0) ∧
      ∀ u ∈ rank us, ∀ v ∈ us, v.identity = u.identity →
        u.confidence.rank ≤ v.confidence.rank) ∧
    ∀ files files' : List InFile, files.Perm files' → (files.map InFile.path).Nodup →
      rank (files.flatMap InFile.usages) = rank (files'.flatMap InFile.usages) := by
  refine ⟨fun us => ?_, fun files files' hfiles hpaths => ?_⟩
  · have hsublist : (rank us).Sublist (sorted us) := firstOfEach_sublist [] (sorted us)
    refine ⟨⟨sorted us, sorted_perm us, hsublist⟩, (pairwise_sorted us).sublist hsublist,
      count_identity_rank us, ?_⟩
    intro u hu v hv hsame
    have hfirst := (mem_firstOfEach_iff.1 hu).2
    exact rank_le_of_find? (pairwise_sorted us) hfirst ((sorted_perm us).mem_iff.2 hv) hsame
  · refine rank_eq_of_files_agree fun p => ?_
    exact filter_flatMap_eq_of_perm InFile.path_eq hfiles hpaths p

/-- A usage at the start of a file. -/
def atStart (path : String) (confidence : Confidence) : ScoredUsage :=
  { (default : ScoredUsage) with path := path, confidence := confidence }

/-- Two files; the second reports one site twice. -/
def twoFiles : List InFile :=
  [⟨"b.php", [atStart "b.php" .certain], by decide⟩,
    ⟨"a.php", [atStart "a.php" .possible, atStart "a.php" .certain], by decide⟩]

theorem rank_twoFiles_reversed :
    twoFiles.Perm twoFiles.reverse ∧ (twoFiles.map InFile.path).Nodup ∧
      rank (twoFiles.flatMap InFile.usages) = rank (twoFiles.reverse.flatMap InFile.usages) := by
  have hperm : twoFiles.Perm twoFiles.reverse := (List.reverse_perm twoFiles).symm
  have hpaths : (twoFiles.map InFile.path).Nodup := by decide
  exact ⟨hperm, hpaths, rank_keeps_best_of_each.2 twoFiles twoFiles.reverse hperm hpaths⟩

/-- The worse of two reports of one site is dropped. -/
example : rank [atStart "a.php" .possible, atStart "a.php" .certain] =
    [atStart "a.php" .certain] := by
  cbv

end ScoredUsage
end CrossReference
