import CrossReference.Diagnostic.Log
import CrossReference.Proofs.Report
import Mathlib.Data.List.Destutter
import Mathlib.Data.List.Duplicate
import Mathlib.Data.String.Basic

/-!
# Repetitions in a summary

A summary is sorted by file, line, code and message, and of neighbours that are equal one stays. The
order does not look at the other fields, and sorting keeps what it does not tell apart in the order
in which it was noted. So a problem is told again exactly when, between two times that it was noted,
another one was that differs from it in these other fields only.

* `Diagnostic.sublist_mergeNeighbours` says what merging cannot remove.
* `Diagnostic.sublist_summary_iff` says what is told of the problems that are sorted by the same,
  and `Diagnostic.duplicate_summary_iff` which of them are told again.
* `Diagnostic.Standard` are the problems that the library itself makes. They differ in what they are
  sorted by, so none of them is told again.
* `DiagnosticLog.takeSorted_tells_each_once_iff` is the result.
-/

namespace CrossReference
namespace Diagnostic

/-! ## Merging neighbours -/

theorem exists_destutter'_eq_cons (d : Diagnostic) (ds : List Diagnostic) :
    ∃ rest, ds.destutter' (· ≠ ·) d = d :: rest := by
  induction ds with
  | nil => exact ⟨[], rfl⟩
  | cons e ds ih =>
      by_cases hne : d ≠ e
      · exact ⟨_, List.destutter'_cons_pos _ hne⟩
      · rwa [List.destutter'_cons_neg _ hne]

theorem mergeNeighbours_cons (d : Diagnostic) (ds : List Diagnostic) :
    mergeNeighbours (d :: ds) = ds.destutter' (· ≠ ·) d := by
  induction ds generalizing d with
  | nil => rfl
  | cons e ds ih =>
      obtain ⟨rest, hrest⟩ := exists_destutter'_eq_cons e ds
      rw [mergeNeighbours, ih, hrest]
      by_cases hne : d = e
      · subst hne
        rw [List.destutter'_cons_neg _ (not_not.2 rfl), hrest]
        exact if_pos rfl
      · rw [List.destutter'_cons_pos _ hne, hrest]
        exact if_neg hne

theorem mergeNeighbours_eq_destutter (ds : List Diagnostic) :
    mergeNeighbours ds = ds.destutter (· ≠ ·) := by
  cases ds with
  | nil => rfl
  | cons d ds => exact mergeNeighbours_cons d ds

/-- Merging leaves what has no equal neighbours. -/
theorem sublist_mergeNeighbours {xs ds : List Diagnostic} (h : xs.Sublist ds)
    (hxs : xs.IsChain (· ≠ ·)) : xs.Sublist (mergeNeighbours ds) := by
  cases ds with
  | nil => exact h
  | cons d ds =>
      rw [mergeNeighbours_cons]
      induction ds generalizing d xs with
      | nil => exact h
      | cons e ds ih =>
          by_cases hne : d = e
          · -- One of two equal neighbours goes, but `xs` does not have both.
            subst hne
            rw [List.destutter'_cons_neg _ (not_not.2 rfl)]
            refine ih hxs d ?_
            cases h with
            | cons _ h => exact h
            | cons_cons _ h =>
                cases h with
                | cons _ h => exact h.cons_cons d
                | cons_cons _ _ => exact absurd rfl (List.isChain_cons_cons.1 hxs).1
          · rw [List.destutter'_cons_pos _ hne]
            cases h with
            | cons _ h => exact (ih hxs e h).cons d
            | cons_cons _ h => exact (ih hxs.tail e h).cons_cons d

/-- Between two equal elements that are not neighbours there is another one. -/
theorem exists_between_of_duplicate {ds : List Diagnostic} (hds : ds.IsChain (· ≠ ·))
    {d : Diagnostic} (h : List.Duplicate d ds) : ∃ e, e ≠ d ∧ [d, e, d].Sublist ds := by
  induction ds with
  | nil => exact absurd h (List.not_duplicate_nil d)
  | cons a ds ih =>
      rcases List.duplicate_cons_iff.1 h with ⟨rfl, hmem⟩ | htail
      · cases ds with
        | nil => exact absurd hmem List.not_mem_nil
        | cons e es =>
            have hne : a ≠ e := (List.isChain_cons_cons.1 hds).1
            have hmem' : a ∈ es := (List.mem_cons.1 hmem).resolve_left hne
            exact ⟨e, hne.symm, ((List.singleton_sublist.2 hmem').cons_cons e).cons_cons a⟩
      · obtain ⟨e, hne, hsub⟩ := ih hds.tail htail
        exact ⟨e, hne, hsub.cons a⟩

/-! ## The order of a summary -/

/-- `a` may stand before `b`: of the files, lines, codes and messages, the first that differ decide.
A missing file or line comes first. -/
def MayPrecede (a b : Diagnostic) : Prop :=
  a.file < b.file ∨ a.file = b.file ∧
    (a.line < b.line ∨ a.line = b.line ∧
      (a.code < b.code ∨ a.code = b.code ∧ a.message ≤ b.message))

/-- Two problems agree in what they are sorted by. -/
structure SameKey (a b : Diagnostic) : Prop where
  file : a.file = b.file
  line : a.line = b.line
  code : a.code = b.code
  message : a.message = b.message

theorem SameKey.refl (a : Diagnostic) : a.SameKey a :=
  ⟨rfl, rfl, rfl, rfl⟩

theorem SameKey.symm {a b : Diagnostic} (h : a.SameKey b) : b.SameKey a :=
  ⟨h.file.symm, h.line.symm, h.code.symm, h.message.symm⟩

theorem SameKey.trans {a b c : Diagnostic} (hab : a.SameKey b) (hbc : b.SameKey c) :
    a.SameKey c where
  file := hab.file.trans hbc.file
  line := hab.line.trans hbc.line
  code := hab.code.trans hbc.code
  message := hab.message.trans hbc.message

theorem compare_option_eq_lt_iff {α : Type} [LinearOrder α] {a b : Option α} :
    Ord.compare a b = .lt ↔ a < b := by
  rw [← compareOption_eq]
  cases a with
  | none => cases b <;> simp [compareOption]
  | some a => cases b <;> simp [compareOption, compare_lt_iff_lt]

theorem isLE_compare_iff {a b : Diagnostic} : (compare a b).isLE = true ↔ a.MayPrecede b := by
  unfold compare MayPrecede
  simp only [compareOption_eq, Ordering.isLE_then_iff_or, compare_option_eq_lt_iff,
    compare_lt_iff_lt, Std.compare_eq_iff_eq, Std.LawfulBCmp.isLE_iff_le]

theorem compare_eq_eq_iff {a b : Diagnostic} : compare a b = .eq ↔ a.SameKey b := by
  unfold compare
  simp only [compareOption_eq, Ordering.then_eq_eq, Std.compare_eq_iff_eq]
  exact ⟨fun h => ⟨h.1, h.2.1, h.2.2.1, h.2.2.2⟩, fun h => ⟨h.file, h.line, h.code, h.message⟩⟩

/-- The problems in the order of a summary, before anything is merged. -/
def sorted (ds : List Diagnostic) : List Diagnostic :=
  ds.mergeSort fun a b => (compare a b).isLE

theorem summary_eq (ds : List Diagnostic) : summary ds = mergeNeighbours (sorted ds) := rfl

theorem pairwise_sorted (ds : List Diagnostic) : (sorted ds).Pairwise MayPrecede :=
  (pairwise_sorted_by compare ds).imp isLE_compare_iff.1

theorem summary_sublist_sorted (ds : List Diagnostic) : (summary ds).Sublist (sorted ds) := by
  rw [summary_eq, mergeNeighbours_eq_destutter]
  exact List.destutter_sublist (· ≠ ·) (sorted ds)

theorem pairwise_summary (ds : List Diagnostic) : (summary ds).Pairwise MayPrecede :=
  (pairwise_sorted ds).sublist (summary_sublist_sorted ds)

/-- Problems that agree in what they are sorted by keep their order. -/
theorem sublist_sorted_iff {xs ds : List Diagnostic} {d : Diagnostic}
    (h : ∀ x ∈ xs, x.SameKey d) : xs.Sublist (sorted ds) ↔ xs.Sublist ds := by
  let p : Diagnostic → Bool := fun x => compare x d == .eq
  have hp : ∀ {x}, p x = true ↔ x.SameKey d := beq_iff_eq.trans compare_eq_eq_iff
  have hxs : xs.filter p = xs := by
    rw [List.filter_eq_self]
    exact fun x hx => hp.2 (h x hx)
  have hgroup : ∀ l : List Diagnostic, xs.Sublist l ↔ xs.Sublist (l.filter p) := by
    intro l
    exact ⟨fun hsub => hxs ▸ hsub.filter p, fun hsub => hsub.trans List.filter_sublist⟩
  have htied : ∀ a b, p a = true → p b = true → (compare a b).isLE = true := by
    intro a b ha hb
    rw [compare_eq_eq_iff.2 ((hp.1 ha).trans (hp.1 hb).symm)]
    rfl
  have hstable : (sorted ds).filter p = ds.filter p :=
    filter_mergeSort (fun _ _ _ => Std.TransCmp.isLE_trans) (isLE_total compare) p htied ds
  rw [hgroup (sorted ds), hgroup ds, hstable]

/-! ## What a summary tells twice -/

theorem isChain_summary (ds : List Diagnostic) : (summary ds).IsChain (· ≠ ·) := by
  rw [summary_eq, mergeNeighbours_eq_destutter]
  exact List.isChain_destutter (· ≠ ·) (sorted ds)

/-- Of problems that agree in what they are sorted by, a summary tells whatever can be chosen in
order without equal neighbours. -/
theorem sublist_summary_iff {xs ds : List Diagnostic} {d : Diagnostic} (hxs : xs.IsChain (· ≠ ·))
    (hkey : ∀ x ∈ xs, x.SameKey d) : xs.Sublist (summary ds) ↔ xs.Sublist ds := by
  constructor
  · intro hsub
    exact (sublist_sorted_iff hkey).1 (hsub.trans (summary_sublist_sorted ds))
  · intro hsub
    exact sublist_mergeNeighbours ((sublist_sorted_iff hkey).2 hsub) hxs

/-- A problem is told twice exactly when another one, which agrees with it in what they are sorted
by, was between two of its occurrences. -/
theorem duplicate_summary_iff {ds : List Diagnostic} {d : Diagnostic} :
    List.Duplicate d (summary ds) ↔ ∃ e, e ≠ d ∧ e.SameKey d ∧ [d, e, d].Sublist ds := by
  have hbetween : ∀ e, e ≠ d → e.SameKey d →
      ([d, e, d].Sublist (summary ds) ↔ [d, e, d].Sublist ds) := by
    intro e hne hsame
    refine sublist_summary_iff ?_ (d := d) ?_
    · simp [hne, hne.symm]
    · simp [hsame, SameKey.refl]
  constructor
  · intro hdup
    obtain ⟨e, hne, hsub⟩ := exists_between_of_duplicate (isChain_summary ds) hdup
    -- `e` stands after `d` and before `d`.
    have hpair := (pairwise_summary ds).sublist hsub
    have hsame : e.SameKey d := by
      simp only [List.pairwise_cons, List.mem_cons, List.not_mem_nil, or_false] at hpair
      have hde : (compare d e).isLE = true := isLE_compare_iff.2 (hpair.1 e (.inl rfl))
      have hed : (compare e d).isLE = true := isLE_compare_iff.2 (hpair.2.1 d rfl)
      exact compare_eq_eq_iff.1 (Std.OrientedCmp.isLE_antisymm hed hde)
    exact ⟨e, hne, hsame, (hbetween e hne hsame).1 hsub⟩
  · rintro ⟨e, hne, hsame, hsub⟩
    rw [List.duplicate_iff_sublist]
    have htwice : [d, d].Sublist [d, e, d] := (List.sublist_cons_self e [d]).cons_cons d
    exact htwice.trans ((hbetween e hne hsame).2 hsub)

theorem count_summary_eq_one_iff {ds : List Diagnostic} {d : Diagnostic} (hd : d ∈ ds) :
    (summary ds).count d = 1 ↔ ¬ ∃ e, e ≠ d ∧ e.SameKey d ∧ [d, e, d].Sublist ds := by
  have hpos : 0 < (summary ds).count d := List.count_pos_iff.2 (mem_summary_iff.2 hd)
  rw [← duplicate_summary_iff, List.duplicate_iff_two_le_count]
  omega

/-! ## Problems worded by a rule -/

/-- The problems that have a wording of their own. -/
inductive Standard : Diagnostic → Prop where
  | parseFailure (path : String) (line : Option Nat) (message : String) :
      Standard (.parseFailure path line message)
  | relationshipCycle (path : String) (line : Nat) (message : String) :
      Standard (.relationshipCycle path line message)
  | unresolvedName (path : String) (line : Nat) (name : String) :
      Standard (.unresolvedName path line name)
  | truncatedResults (path : String) (limit : Nat) : Standard (.truncatedResults path limit)
  | oversizedFile (path : String) (size limit : Nat) : Standard (.oversizedFile path size limit)
  | malformedQuery (query reason : String) : Standard (.malformedQuery query reason)
  | partialAncestors (type : String) (unresolved : List String) (truncated : Bool) :
      Standard (.partialAncestors type unresolved truncated)

/-- The codes of such problems, each with what it is about and how bad it is. -/
def standardCodes : List (String × Category × Severity) :=
  [("E0001", .parse, .error), ("E0002", .cycle, .error), ("W0001", .unresolved, .warning),
    ("W0002", .resource, .warning), ("W0003", .resource, .warning), ("W0004", .query, .warning),
    ("W0005", .resource, .warning)]

theorem Standard.code_mem {d : Diagnostic} (h : d.Standard) :
    (d.code, d.category, d.severity) ∈ standardCodes := by
  cases h <;> simp [standardCodes, Diagnostic.parseFailure, Diagnostic.relationshipCycle,
    Diagnostic.unresolvedName, Diagnostic.truncatedResults, Diagnostic.oversizedFile,
    Diagnostic.malformedQuery, Diagnostic.partialAncestors]

theorem Standard.snippet_eq_none {d : Diagnostic} (h : d.Standard) : d.snippet = none := by
  cases h <;> rfl

/-- Such a problem is known by what it is sorted by. -/
theorem Standard.eq_of_sameKey {a b : Diagnostic} (ha : a.Standard) (hb : b.Standard)
    (h : a.SameKey b) : a = b := by
  have hcodes : ∀ x ∈ standardCodes, ∀ y ∈ standardCodes, x.1 = y.1 → x.2 = y.2 := by decide
  have hkind := hcodes _ ha.code_mem _ hb.code_mem h.code
  rw [Prod.mk.injEq] at hkind
  have hsnippet : a.snippet = b.snippet := by rw [ha.snippet_eq_none, hb.snippet_eq_none]
  cases a
  cases b
  rw [mk.injEq]
  exact ⟨hkind.1, hkind.2, h.file, h.line, hsnippet, h.code, h.message⟩

end Diagnostic

namespace DiagnosticLog

/-! ## Logs -/

/-- A way to note problems. -/
inductive Addition where
  | one (d : Diagnostic)
  | several (ds : List Diagnostic)

/-- The problems that are noted. -/
def Addition.problems : Addition → List Diagnostic
  | one d => [d]
  | several ds => ds

/-- Notes what is added. -/
def note (log : DiagnosticLog) : Addition → DiagnosticLog
  | .one d => log.add d
  | .several ds => log.addAll ds

theorem entries_note (log : DiagnosticLog) (a : Addition) :
    (log.note a).entries = log.entries ++ a.problems := by
  cases a with
  | one d => rfl
  | several ds => rfl

theorem entries_foldl_note (log : DiagnosticLog) (as : List Addition) :
    (as.foldl note log).entries = log.entries ++ as.flatMap Addition.problems := by
  induction as generalizing log with
  | nil => simp
  | cons a as ih => rw [List.foldl_cons, ih, entries_note, List.flatMap_cons, List.append_assoc]

/-- The log of what was added since it was empty. -/
def ofAdditions (as : List Addition) : DiagnosticLog :=
  as.foldl note ∅

theorem entries_ofAdditions (as : List Addition) :
    (ofAdditions as).entries = as.flatMap Addition.problems :=
  entries_foldl_note ∅ as

/-- Taking the summary of a log empties it, and gives in order what was added and nothing else. Of
problems that agree in what they are sorted by, it gives all that can be chosen, in the order of the
additions, without equal neighbours. So a problem is given once if and only if no other one that
agrees with it was added between two of its additions, and each is given once where all have a
wording of their own. -/
theorem takeSorted_tells_each_once_iff (as : List Addition) :
    (ofAdditions as).takeSorted.2 = ∅ ∧
      (ofAdditions as).takeSorted.1.Pairwise Diagnostic.MayPrecede ∧
      (∀ d, d ∈ (ofAdditions as).takeSorted.1 ↔ d ∈ as.flatMap Addition.problems) ∧
      ((ofAdditions as).takeSorted.1.IsChain (· ≠ ·) ∧
        ∀ (d : Diagnostic) (xs : List Diagnostic), xs.IsChain (· ≠ ·) → (∀ x ∈ xs, x.SameKey d) →
          (xs.Sublist (ofAdditions as).takeSorted.1 ↔
            xs.Sublist (as.flatMap Addition.problems))) ∧
      (∀ d ∈ as.flatMap Addition.problems, (ofAdditions as).takeSorted.1.count d = 1 ↔
        ¬ ∃ e, e ≠ d ∧ e.SameKey d ∧ [d, e, d].Sublist (as.flatMap Addition.problems)) ∧
      ((∀ d ∈ as.flatMap Addition.problems, d.Standard) →
        ∀ d ∈ as.flatMap Addition.problems, (ofAdditions as).takeSorted.1.count d = 1) := by
  rw [takeSorted, entries_ofAdditions]
  refine ⟨rfl, Diagnostic.pairwise_summary _, fun d => Diagnostic.mem_summary_iff,
    ⟨Diagnostic.isChain_summary _, fun d xs => Diagnostic.sublist_summary_iff⟩,
    fun d hd => Diagnostic.count_summary_eq_one_iff hd, ?_⟩
  intro hstandard d hd
  rw [Diagnostic.count_summary_eq_one_iff hd]
  rintro ⟨e, hne, hsame, hsub⟩
  have he : e ∈ as.flatMap Addition.problems := hsub.mem (by simp)
  exact hne ((hstandard e he).eq_of_sameKey (hstandard d hd) hsame)

/-- A name that is not resolved. -/
def unresolvedWidget : Diagnostic :=
  .unresolvedName "a.php" 3 "Widget"

/-- The same, with the text of the line. -/
def quotedWidget : Diagnostic :=
  { unresolvedWidget with snippet := some "new Widget();" }

theorem unresolvedWidget_told_once_unless_quoted :
    (ofAdditions [.one unresolvedWidget,
      .several [.oversizedFile "a.php" 9 8, unresolvedWidget]]).takeSorted.1.count
        unresolvedWidget = 1 ∧
    (ofAdditions [.one unresolvedWidget, .one quotedWidget,
      .one unresolvedWidget]).takeSorted.1.count unresolvedWidget ≠ 1 := by
  constructor
  · refine (takeSorted_tells_each_once_iff _).2.2.2.2.2 ?_ unresolvedWidget (by decide)
    simp only [List.flatMap_cons, List.flatMap_nil, Addition.problems, List.forall_mem_append,
      List.forall_mem_cons, List.not_mem_nil, false_implies, implies_true, and_true]
    exact ⟨.unresolvedName .., .oversizedFile .., .unresolvedName ..⟩
  · rw [ne_eq, (takeSorted_tells_each_once_iff _).2.2.2.2.1 unresolvedWidget (by decide), not_not]
    exact ⟨quotedWidget, by decide, ⟨rfl, rfl, rfl, rfl⟩, by decide⟩

/-- One problem is given twice, since the other comes between and is sorted by the same. -/
theorem takeSorted_repeats_unresolvedWidget :
    (ofAdditions [.one unresolvedWidget, .one quotedWidget, .one unresolvedWidget]).takeSorted =
      ([unresolvedWidget, quotedWidget, unresolvedWidget], ∅) := by
  have hsorted : Diagnostic.sorted [unresolvedWidget, quotedWidget, unresolvedWidget] =
      [unresolvedWidget, quotedWidget, unresolvedWidget] :=
    List.mergeSort_of_pairwise (by decide)
  have hmerged : Diagnostic.mergeNeighbours [unresolvedWidget, quotedWidget, unresolvedWidget] =
      [unresolvedWidget, quotedWidget, unresolvedWidget] := by decide
  rw [takeSorted, entries_ofAdditions]
  refine Prod.ext ?_ rfl
  exact (congrArg Diagnostic.mergeNeighbours hsorted).trans hmerged

end DiagnosticLog
end CrossReference
