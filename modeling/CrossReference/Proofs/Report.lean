import CrossReference.Diagnostic.Basic
import CrossReference.Usage.Ranking
import Mathlib.Data.List.Sort

/-!
# Reports in order

Usages and problems are sorted before they are reported. The orders are total, but they do not tell
everything apart, and what they leave open is decided by the order in which the search came across
it. Two usages that compare as equal lie in one file, and so do two problems. A report therefore
depends only on what each file contributes, in its own order, and not on the order of the files.

* `mergeSort_eq_of_filter_eq` says so of any sorted list whose ties have a common tag.
* `ScoredUsage.rank_eq_of_files_agree` and `Diagnostic.summary_eq_of_files_agree` are its two cases.
* `flatMap_eq_of_perm` allows the files to come in any order, if no two contribute the same thing.
* `Diagnostic.summary_with_file` says where the problems of one more file come into a summary.
-/

namespace CrossReference

section Sorting

variable {α τ : Type} {le : α → α → Bool}

/-- Elements that are all tied keep their order. -/
theorem filter_mergeSort (htrans : ∀ a b c, le a b → le b c → le a c)
    (htotal : ∀ a b, le a b || le b a) (p : α → Bool) (htied : ∀ a b, p a → p b → le a b)
    (l : List α) : (l.mergeSort le).filter p = l.filter p := by
  have hsorted : (l.filter p).Pairwise fun a b => le a b := by
    refine List.pairwise_of_forall_mem_list ?_
    intro a ha b hb
    exact htied a b (List.of_mem_filter ha) (List.of_mem_filter hb)
  have hsub : (l.filter p).Sublist ((l.mergeSort le).filter p) := by
    have hkept := (List.sublist_mergeSort htrans htotal hsorted List.filter_sublist).filter p
    simpa [List.filter_filter] using hkept
  have hlength : (l.filter p).length = ((l.mergeSort le).filter p).length :=
    ((List.mergeSort_perm l le).filter p).length_eq.symm
  exact (hsub.eq_of_length hlength).symm

/-- Whether neither of two elements has to come before the other. -/
def tied (le : α → α → Bool) (a b : α) : Bool :=
  le a b && le b a

theorem tied_iff {a b : α} : tied le a b = true ↔ le a b = true ∧ le b a = true := by
  simp [tied]

theorem tied_self (htotal : ∀ a b, le a b || le b a) (a : α) : tied le a a = true := by
  have haa : le a a = true := by simpa using htotal a a
  exact tied_iff.2 ⟨haa, haa⟩

theorem mem_iff_of_filter_tied_eq (htotal : ∀ a b, le a b || le b a) {l l' : List α}
    (h : ∀ a, l.filter (tied le a) = l'.filter (tied le a)) (a : α) : a ∈ l ↔ a ∈ l' := by
  have hgroup : ∀ m : List α, a ∈ m ↔ a ∈ m.filter (tied le a) := by
    intro m
    simp [List.mem_filter, tied_self htotal]
  rw [hgroup l, hgroup l', h a]

/-- A sorted list is known when each group of ties in it is known. -/
theorem eq_of_sorted_of_filter_eq (htotal : ∀ a b, le a b || le b a) {l l' : List α}
    (hl : l.Pairwise fun a b => le a b) (hl' : l'.Pairwise fun a b => le a b)
    (h : ∀ a, l.filter (tied le a) = l'.filter (tied le a)) : l = l' := by
  have hmem := mem_iff_of_filter_tied_eq htotal h
  induction l generalizing l' with
  | nil =>
      refine (List.eq_nil_iff_forall_not_mem.2 ?_).symm
      intro a ha
      exact List.not_mem_nil ((hmem a).2 ha)
  | cons a l ih =>
      cases l' with
      | nil => exact absurd ((hmem a).1 List.mem_cons_self) List.not_mem_nil
      | cons b l' =>
          obtain ⟨hleast, htail⟩ := List.pairwise_cons.1 hl
          obtain ⟨hleast', htail'⟩ := List.pairwise_cons.1 hl'
          have hab : le a b = true := by
            rcases List.mem_cons.1 ((hmem b).2 List.mem_cons_self) with rfl | hb
            · exact (tied_iff.1 (tied_self htotal b)).1
            · exact hleast b hb
          have hba : le b a = true := by
            rcases List.mem_cons.1 ((hmem a).1 List.mem_cons_self) with rfl | ha
            · exact (tied_iff.1 (tied_self htotal a)).1
            · exact hleast' a ha
          -- Both heads are the first of one group of ties.
          have heq : a = b := by
            have hgroup := h a
            rw [List.filter_cons_of_pos (tied_self htotal a),
              List.filter_cons_of_pos (tied_iff.2 ⟨hab, hba⟩)] at hgroup
            exact (List.cons.inj hgroup).1
          subst heq
          have hrest : ∀ c, l.filter (tied le c) = l'.filter (tied le c) := by
            intro c
            have hgroup := h c
            by_cases hc : tied le c a = true
            · rw [List.filter_cons_of_pos hc, List.filter_cons_of_pos hc] at hgroup
              exact (List.cons.inj hgroup).2
            · rwa [List.filter_cons_of_neg hc, List.filter_cons_of_neg hc] at hgroup
          rw [ih htail htail' hrest (mem_iff_of_filter_tied_eq htotal hrest)]

/-- Where ties have a common tag, a sorted list depends only on the elements of each tag, in their
order. -/
theorem mergeSort_eq_of_filter_eq [DecidableEq τ] (htrans : ∀ a b c, le a b → le b c → le a c)
    (htotal : ∀ a b, le a b || le b a) {tag : α → τ}
    (htag : ∀ a b, le a b → le b a → tag a = tag b) {l l' : List α}
    (h : ∀ t, l.filter (fun a => tag a = t) = l'.filter fun a => tag a = t) :
    l.mergeSort le = l'.mergeSort le := by
  refine eq_of_sorted_of_filter_eq htotal (List.pairwise_mergeSort htrans htotal l)
    (List.pairwise_mergeSort htrans htotal l') ?_
  intro a
  have htied : ∀ b c, tied le a b = true → tied le a c = true → le b c = true := by
    intro b c hb hc
    exact htrans b a c (tied_iff.1 hb).2 (tied_iff.1 hc).1
  have htagged : ∀ m : List α,
      m.filter (tied le a) = (m.filter fun b => tag b = tag a).filter (tied le a) := by
    intro m
    rw [List.filter_filter]
    refine List.filter_congr ?_
    intro b _
    by_cases hb : tied le a b = true
    · have hab := tied_iff.1 hb
      simp [hb, htag b a hab.2 hab.1]
    · simp [hb]
  rw [filter_mergeSort htrans htotal _ htied, filter_mergeSort htrans htotal _ htied, htagged l,
    htagged l', h]

/-- A sorted list begins with the elements of a kind that nothing else comes before. -/
theorem eq_filter_append_of_sorted {p : α → Bool} (hp : ∀ a b, le a b → p b → p a) {l : List α}
    (hl : l.Pairwise fun a b => le a b) : l = l.filter p ++ l.filter (!p ·) := by
  induction l with
  | nil => rfl
  | cons a l ih =>
      obtain ⟨hleast, htail⟩ := List.pairwise_cons.1 hl
      by_cases ha : p a = true
      · rw [List.filter_cons_of_pos ha, List.filter_cons_of_neg (by simp [ha]), List.cons_append,
          ← ih htail]
      · -- Nothing after `a` is of the kind, since `a` comes before it and is not.
        have hnone : l.filter p = [] := by
          rw [List.filter_eq_nil_iff]
          exact fun b hb hpb => ha (hp a b (hleast b hb) hpb)
        have hall : l.filter (!p ·) = l := by
          rw [List.filter_eq_self]
          exact fun b hb => by simpa using List.filter_eq_nil_iff.1 hnone b hb
        rw [List.filter_cons_of_neg ha, List.filter_cons_of_pos (by simp [ha]), hnone, hall,
          List.nil_append]

/-- What comes between the others is sorted among itself and put between them. -/
theorem mergeSort_between (htrans : ∀ a b c, le a b → le b c → le a c)
    (htotal : ∀ a b, le a b || le b a) {before block after smaller larger : List α}
    (hrest : (before ++ after).mergeSort le = smaller ++ larger)
    (hsmaller : ∀ a ∈ smaller, ∀ x ∈ block, le a x = true ∧ le x a = false)
    (hlarger : ∀ a ∈ larger, ∀ x ∈ block, le x a = true ∧ le a x = false) :
    (before ++ block ++ after).mergeSort le = smaller ++ block.mergeSort le ++ larger := by
  have hsorted := List.pairwise_mergeSort htrans htotal (before ++ after)
  rw [hrest, List.pairwise_append] at hsorted
  have hall : (smaller ++ block.mergeSort le ++ larger).Pairwise fun a b => le a b := by
    rw [List.append_assoc, List.pairwise_append, List.pairwise_append]
    refine ⟨hsorted.1, ⟨List.pairwise_mergeSort htrans htotal block, hsorted.2.1, ?_⟩, ?_⟩
    · intro x hx a ha
      exact (hlarger a ha x (List.mem_mergeSort.1 hx)).1
    · intro a ha b hb
      rcases List.mem_append.1 hb with hb | hb
      · exact (hsmaller a ha b (List.mem_mergeSort.1 hb)).1
      · exact hsorted.2.2 a ha b hb
  refine eq_of_sorted_of_filter_eq htotal (List.pairwise_mergeSort htrans htotal _) hall ?_
  intro a
  have htied : ∀ b c, tied le a b = true → tied le a c = true → le b c = true := by
    intro b c hb hc
    exact htrans b a c (tied_iff.1 hb).2 (tied_iff.1 hc).1
  have hothers := filter_mergeSort htrans htotal _ htied (before ++ after)
  rw [hrest, List.filter_append, List.filter_append] at hothers
  rw [filter_mergeSort htrans htotal _ htied]
  simp only [List.filter_append, filter_mergeSort htrans htotal _ htied]
  by_cases hblock : ∃ x ∈ block, tied le a x = true
  · -- Nothing else is tied to an element of the block.
    obtain ⟨x, hx, hxa⟩ := hblock
    have hnone : smaller.filter (tied le a) = [] := by
      rw [List.filter_eq_nil_iff]
      intro b hb hba
      exact absurd (htied x b hxa hba) (by simp [(hsmaller b hb x hx).2])
    have hnone' : larger.filter (tied le a) = [] := by
      rw [List.filter_eq_nil_iff]
      intro b hb hba
      exact absurd (htied b x hba hxa) (by simp [(hlarger b hb x hx).2])
    rw [hnone, hnone', List.append_nil, eq_comm, List.append_eq_nil_iff] at hothers
    rw [hnone, hnone', hothers.1, hothers.2]
  · have hnone : block.filter (tied le a) = [] := by
      rw [List.filter_eq_nil_iff]
      exact fun x hx hxa => hblock ⟨x, hx, hxa⟩
    rw [hnone, List.append_nil, List.append_nil, hothers]

/-- The order of the parts of a list does not matter, if at most one of them has any elements. -/
theorem flatMap_eq_of_perm {β : Type} {f : β → List α} {l l' : List β} (hperm : l.Perm l')
    (h : l.Pairwise fun a b => f a = [] ∨ f b = []) : l.flatMap f = l'.flatMap f := by
  induction hperm with
  | nil => rfl
  | cons a _ ih =>
      rw [List.flatMap_cons, List.flatMap_cons, ih (List.pairwise_cons.1 h).2]
  | swap a b l =>
      have hba : f b = [] ∨ f a = [] := (List.pairwise_cons.1 h).1 a List.mem_cons_self
      simp only [List.flatMap_cons]
      rcases hba with hb | ha
      · simp [hb]
      · simp [ha]
  | trans hfirst _ ih₁ ih₂ =>
      rw [ih₁ h]
      exact ih₂ (h.perm hfirst fun hab => hab.symm)

/-- Parts whose elements all carry a tag of their own part may come in any order, as long as the
elements of one tag are concerned. -/
theorem filter_flatMap_eq_of_perm [DecidableEq τ] {β : Type} {f : β → List α} {tag : α → τ}
    {partTag : β → τ} (htag : ∀ b, ∀ a ∈ f b, tag a = partTag b) {l l' : List β}
    (hperm : l.Perm l') (hnodup : (l.map partTag).Nodup) (t : τ) :
    (l.flatMap f).filter (fun a => tag a = t) = (l'.flatMap f).filter fun a => tag a = t := by
  rw [List.filter_flatMap, List.filter_flatMap]
  refine flatMap_eq_of_perm hperm ?_
  have hnone : ∀ b, partTag b ≠ t → ((f b).filter fun a => tag a = t) = [] := by
    intro b hb
    rw [List.filter_eq_nil_iff]
    intro a ha
    simpa [htag b a ha] using hb
  refine List.Pairwise.imp ?_ (List.pairwise_map.1 hnodup)
  intro a b hab
  by_cases ha : partTag a = t
  · exact .inr (hnone b fun hb => hab (ha.trans hb.symm))
  · exact .inl (hnone a ha)

theorem isLE_total (cmp : α → α → Ordering) [Std.OrientedCmp cmp] (a b : α) :
    ((cmp a b).isLE || (cmp b a).isLE) = true := by
  have hswap : cmp b a = (cmp a b).swap := Std.OrientedCmp.eq_swap
  rw [hswap]
  cases cmp a b with
  | lt => rfl
  | eq => rfl
  | gt => rfl

theorem pairwise_sorted_by (cmp : α → α → Ordering) [Std.TransCmp cmp] (l : List α) :
    (l.mergeSort fun a b => (cmp a b).isLE).Pairwise fun a b => (cmp a b).isLE = true :=
  List.pairwise_mergeSort (fun _ _ _ => Std.TransCmp.isLE_trans) (isLE_total cmp) l

/-- The same for a list that is sorted by a comparison, where what compares as equal has a common
tag. -/
theorem sorted_eq_of_filter_eq [DecidableEq τ] (cmp : α → α → Ordering) [Std.TransCmp cmp]
    {tag : α → τ} (htag : ∀ a b, cmp a b = .eq → tag a = tag b) {l l' : List α}
    (h : ∀ t, l.filter (fun a => tag a = t) = l'.filter fun a => tag a = t) :
    (l.mergeSort fun a b => (cmp a b).isLE) = l'.mergeSort fun a b => (cmp a b).isLE := by
  refine mergeSort_eq_of_filter_eq (fun _ _ _ => Std.TransCmp.isLE_trans) (isLE_total cmp) ?_ h
  intro a b hab hba
  exact htag a b (Std.OrientedCmp.isLE_antisymm hab hba)

/-- What a comparison puts between the others is sorted among itself and put between them. -/
theorem sorted_between (cmp : α → α → Ordering) [Std.TransCmp cmp]
    {before block after smaller larger : List α}
    (hrest : ((before ++ after).mergeSort fun a b => (cmp a b).isLE) = smaller ++ larger)
    (hsmaller : ∀ a ∈ smaller, ∀ x ∈ block, cmp a x = .lt)
    (hlarger : ∀ x ∈ block, ∀ a ∈ larger, cmp x a = .lt) :
    ((before ++ block ++ after).mergeSort fun a b => (cmp a b).isLE) =
      smaller ++ (block.mergeSort fun a b => (cmp a b).isLE) ++ larger := by
  have hstrict : ∀ {a b : α}, cmp a b = .lt → (cmp a b).isLE = true ∧ (cmp b a).isLE = false := by
    intro a b h
    have hswap : cmp b a = (cmp a b).swap := Std.OrientedCmp.eq_swap
    simp [hswap, h]
  exact mergeSort_between (fun _ _ _ => Std.TransCmp.isLE_trans) (isLE_total cmp) hrest
    (fun a ha x hx => hstrict (hsmaller a ha x hx)) (fun a ha x hx => hstrict (hlarger x hx a ha))

end Sorting

namespace ScoredUsage

instance : Std.TransCmp compare :=
  inferInstanceAs (Std.TransCmp (compareLex (compareOn fun u : ScoredUsage => u.confidence.rank)
    (compareLex (compareOn path) (compareLex (compareOn line)
      (compareLex (compareOn column) (compareOn fun u => u.kind.order))))))

theorem path_eq_of_compare {a b : ScoredUsage} (h : compare a b = .eq) : a.path = b.path := by
  unfold compare at h
  simp only [Ordering.then_eq_eq] at h
  exact Std.LawfulEqCmp.eq_of_compare h.2.1

/-- The ranking depends only on the usages in each file, in their order. -/
theorem rank_eq_of_files_agree {us us' : List ScoredUsage}
    (h : ∀ p, us.filter (fun u => u.path = p) = us'.filter fun u => u.path = p) :
    rank us = rank us' := by
  unfold rank
  rw [sorted_eq_of_filter_eq compare (fun _ _ => path_eq_of_compare) h]

end ScoredUsage

namespace Diagnostic

theorem compareOption_eq {α : Type} [Ord α] (a b : Option α) :
    compareOption Ord.compare a b = Ord.compare a b := by
  cases a with
  | none => cases b <;> rfl
  | some a => cases b <;> rfl

theorem compare_eq :
    compare = compareLex (compareOn file) (compareLex (compareOn line)
      (compareLex (compareOn code) (compareOn message))) := by
  funext a b
  unfold compare
  rw [compareOption_eq, compareOption_eq]
  rfl

instance : Std.TransCmp compare :=
  compare_eq ▸ inferInstance

theorem file_eq_of_compare {a b : Diagnostic} (h : compare a b = .eq) : a.file = b.file := by
  unfold compare at h
  rw [compareOption_eq, Ordering.then_eq_eq] at h
  exact Std.LawfulEqCmp.eq_of_compare h.1

/-- The summary depends only on the problems of each file, and those of none, in their order. -/
theorem summary_eq_of_files_agree {ds ds' : List Diagnostic}
    (h : ∀ p, ds.filter (fun d => d.file = p) = ds'.filter fun d => d.file = p) :
    summary ds = summary ds' := by
  unfold summary
  rw [sorted_eq_of_filter_eq compare (fun _ _ => file_eq_of_compare) h]

/-! ## Problems of one more file -/

theorem compare_of_file_lt {a b : Diagnostic} (h : Ord.compare a.file b.file = .lt) :
    compare a b = .lt := by
  unfold compare
  rw [compareOption_eq, h]
  rfl

theorem file_isLE_of_compare {a b : Diagnostic} (h : (compare a b).isLE = true) :
    (Ord.compare a.file b.file).isLE = true := by
  unfold compare at h
  rw [compareOption_eq] at h
  cases hfile : Ord.compare a.file b.file with
  | lt => rfl
  | eq => rfl
  | gt =>
      rw [hfile] at h
      exact absurd h (by simp [Ordering.then, Ordering.isLE])

theorem mergeNeighbours_ne_nil (d : Diagnostic) (ds : List Diagnostic) :
    mergeNeighbours (d :: ds) ≠ [] := by
  rw [mergeNeighbours]
  split
  · simp
  · split <;> simp

theorem mem_mergeNeighbours_iff {ds : List Diagnostic} {d : Diagnostic} :
    d ∈ mergeNeighbours ds ↔ d ∈ ds := by
  induction ds with
  | nil => rfl
  | cons first ds ih =>
      rw [mergeNeighbours, List.mem_cons, ← ih]
      cases mergeNeighbours ds with
      | nil => simp
      | cons e es =>
          simp only
          split
          · rename_i heq
            subst heq
            simp
          · rw [List.mem_cons]

/-- A summary tells every problem and nothing else. -/
theorem mem_summary_iff {ds : List Diagnostic} {d : Diagnostic} : d ∈ summary ds ↔ d ∈ ds := by
  rw [summary, mem_mergeNeighbours_iff, List.mem_mergeSort]

/-- Lists without common elements are merged one by one. -/
theorem mergeNeighbours_append {xs ys : List Diagnostic} (h : ∀ x ∈ xs, x ∉ ys) :
    mergeNeighbours (xs ++ ys) = mergeNeighbours xs ++ mergeNeighbours ys := by
  induction xs with
  | nil => rfl
  | cons x xs ih =>
      rw [List.forall_mem_cons] at h
      rw [List.cons_append, mergeNeighbours, ih h.2, mergeNeighbours]
      cases xs with
      | nil =>
          -- The last of the first list meets the first of the second, which is another.
          have hne : ∀ e es, mergeNeighbours ys = e :: es → x ≠ e := by
            rintro e es heq rfl
            exact h.1 (mem_mergeNeighbours_iff.1 (heq ▸ List.mem_cons_self))
          cases hys : mergeNeighbours ys with
          | nil => rfl
          | cons e es => simp [mergeNeighbours, hne e es hys]
      | cons x' xs =>
          obtain ⟨e, es, heq⟩ := List.exists_cons_of_ne_nil (mergeNeighbours_ne_nil x' xs)
          rw [heq, List.cons_append]
          simp only
          split <;> rfl

/-- Sorted problems of other files are those of the files before a given one, then those of the
files after it. -/
theorem exists_sorted_split {ds : List Diagnostic} {path : String}
    (h : ∀ d ∈ ds, d.file ≠ some path) :
    ∃ smaller larger, (ds.mergeSort fun a b => (compare a b).isLE) = smaller ++ larger ∧
      (∀ d ∈ smaller, Ord.compare d.file (some path) = .lt) ∧
      ∀ d ∈ larger, Ord.compare (some path) d.file = .lt := by
  let low : Diagnostic → Bool := fun d => Ord.compare d.file (some path) == .lt
  have hdown : ∀ a b, (compare a b).isLE = true → low b → low a := by
    intro a b hab hb
    exact beq_iff_eq.2 (Std.TransCmp.lt_of_isLE_of_lt (file_isLE_of_compare hab) (beq_iff_eq.1 hb))
  refine ⟨_, _, eq_filter_append_of_sorted hdown (pairwise_sorted_by compare ds), ?_, ?_⟩
  · intro d hd
    exact beq_iff_eq.1 (List.mem_filter.1 hd).2
  · intro d hd
    obtain ⟨hmem, hhigh⟩ := List.mem_filter.1 hd
    have hnlt : Ord.compare d.file (some path) ≠ .lt := by simpa [low] using hhigh
    have hne : Ord.compare d.file (some path) ≠ .eq := fun heq =>
      h d (List.mem_mergeSort.1 hmem) (Std.LawfulEqCmp.eq_of_compare heq)
    have hswap : Ord.compare (some path) d.file = (Ord.compare d.file (some path)).swap :=
      Std.OrientedCmp.eq_swap
    rw [hswap]
    cases hfile : Ord.compare d.file (some path) with
    | lt => exact absurd hfile hnlt
    | eq => exact absurd hfile hne
    | gt => rfl

theorem not_mem_of_compare_lt {xs ys : List Diagnostic}
    (h : ∀ x ∈ xs, ∀ y ∈ ys, compare x y = .lt) : ∀ x ∈ xs, x ∉ ys := by
  intro x hx hy
  have hself : compare x x = .eq := Std.ReflCmp.compare_self
  exact Ordering.noConfusion (hself.symm.trans (h x hx x hy))

/-- The problems of one more file are summed up by themselves, and stand together in the summary of
all. -/
theorem summary_with_file {before block after : List Diagnostic} {path : String}
    (hblock : ∀ d ∈ block, d.file = some path)
    (hrest : ∀ d ∈ before ++ after, d.file ≠ some path) :
    ∃ smaller larger, summary (before ++ after) = smaller ++ larger ∧
      summary (before ++ block ++ after) = smaller ++ summary block ++ larger := by
  obtain ⟨smaller, larger, hsplit, hsmaller, hlarger⟩ := exists_sorted_split hrest
  have hlt : ∀ a ∈ smaller, ∀ x ∈ block, compare a x = .lt := fun a ha x hx =>
    compare_of_file_lt (hblock x hx ▸ hsmaller a ha)
  have hgt : ∀ x ∈ block, ∀ a ∈ larger, compare x a = .lt := fun x hx a ha =>
    compare_of_file_lt (hblock x hx ▸ hlarger a ha)
  have hacross : ∀ a ∈ smaller, ∀ b ∈ larger, compare a b = .lt := fun a ha b hb =>
    compare_of_file_lt (Std.TransCmp.lt_trans (hsmaller a ha) (hlarger b hb))
  refine ⟨mergeNeighbours smaller, mergeNeighbours larger, ?_, ?_⟩
  · rw [summary, hsplit, mergeNeighbours_append (not_mem_of_compare_lt hacross)]
  · have hleft : ∀ d ∈ smaller ++ block.mergeSort fun a b => (compare a b).isLE, d ∉ larger := by
      intro d hd
      rcases List.mem_append.1 hd with hd | hd
      · exact not_mem_of_compare_lt hacross d hd
      · exact not_mem_of_compare_lt hgt d (List.mem_mergeSort.1 hd)
    have hright : ∀ d ∈ smaller, d ∉ block.mergeSort fun a b => (compare a b).isLE :=
      fun d hd hmem => not_mem_of_compare_lt hlt d hd (List.mem_mergeSort.1 hmem)
    rw [summary, sorted_between compare hsplit hlt hgt, mergeNeighbours_append hleft,
      mergeNeighbours_append hright, summary]

end Diagnostic
end CrossReference
