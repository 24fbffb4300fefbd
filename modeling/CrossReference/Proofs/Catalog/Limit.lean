import CrossReference.Proofs.Catalog.Traversal

/-!
# The limit on the ancestors

A climb up from a type has room for a number of ancestors. It looks for room only when it comes to a
declared type that it has not met, and ends there if none is left. So a limit takes off the end of
the list and changes nothing before it, and a list that is as long as the limit is not cut off.

* `Ancestors.CutAt` says what is left of a list of ancestors.
* `Catalog.climb_cutAt` compares a climb with one that has room enough, by induction on the first.
* `Catalog.limit_cuts_tail` is the result for every catalog and every limit.
-/

namespace CrossReference

/-- What there is room for of the ancestors `full`: the beginning of the chain, the first ones of
the unresolved types, and a mark if something of the chain is missing. -/
structure Ancestors.CutAt (room : Nat) (full cut : Ancestors) : Prop where
  chain : cut.chain = full.chain.take room
  truncated : cut.truncated = true ↔ room < full.chain.length
  unresolved : cut.unresolved <+: full.unresolved

namespace Ancestors.CutAt

variable {room : Nat} {full cut : Ancestors}

theorem cons_chain (h : full.CutAt room cut) (a : Ancestor) :
    (Ancestors.followedBy { chain := [a] } full).CutAt (room + 1)
      (Ancestors.followedBy { chain := [a] } cut) where
  chain := by simp [followedBy, h.chain]
  truncated := by simp [followedBy, h.truncated]
  unresolved := by simpa [followedBy] using h.unresolved

theorem cons_unresolved (h : full.CutAt room cut) (name : String) :
    (Ancestors.followedBy { unresolved := [name] } full).CutAt room
      (Ancestors.followedBy { unresolved := [name] } cut) where
  chain := by simp [followedBy, h.chain]
  truncated := by simp [followedBy, h.truncated]
  unresolved := by simpa [followedBy] using h.unresolved

/-- Without room, nothing is left of ancestors whose chain is not empty. -/
theorem zero (a : Ancestor) (full : Ancestors) :
    (Ancestors.followedBy { chain := [a] } full).CutAt 0 { truncated := true } where
  chain := by simp
  truncated := by simp [followedBy]
  unresolved := List.nil_prefix

end Ancestors.CutAt

namespace Catalog

variable {c : Catalog}

/-- A climb finds the beginning of what a climb finds that has room for everything. -/
theorem climb_cutAt (seen : List String) (room : Nat) (toVisit : List Ancestor) {space : Nat}
    (h : (c.climb seen space toVisit).truncated = false) :
    (c.climb seen space toVisit).CutAt room (c.climb seen room toVisit) := by
  fun_induction climb c seen room toVisit generalizing space with
  | case1 seen room =>
      rw [climb]
      exact ⟨by simp, by simp, List.nil_prefix⟩
  | case2 seen room next rest hseen ih =>
      rw [climb_cons_of_mem _ _ hseen] at h ⊢
      exact ih h
  | case3 seen room next rest hseen hnone others =>
      rename_i ih
      rw [climb_cons_of_undeclared _ _ hseen hnone] at h ⊢
      have hcut := (ih (by simpa [Ancestors.followedBy] using h)).cons_unresolved next.name
      simpa [Ancestors.followedBy] using hcut
  | case4 seen next rest hseen s hs =>
      -- Only a climb without room ends here.
      cases space with
      | zero => exact absurd h (by simp [climb_cons_of_full _ hseen hs])
      | succ space =>
          rw [climb_cons_of_hasType _ _ hseen hs]
          exact .zero _ _
  | case5 seen next rest hseen s hs room others =>
      rename_i ih
      cases space with
      | zero => exact absurd h (by simp [climb_cons_of_full _ hseen hs])
      | succ space =>
          rw [climb_cons_of_hasType _ _ hseen hs] at h ⊢
          have hcut := (ih (by simpa [Ancestors.followedBy] using h)).cons_chain
            { next with name := s.qualifiedName }
          simpa [Ancestors.followedBy] using hcut

/-- The limit of a catalog does not matter for a climb whose room is given. -/
theorem climb_setAncestorLimit (c : Catalog) (limit : Nat) (seen : List String) (room : Nat)
    (toVisit : List Ancestor) :
    (c.setAncestorLimit limit).climb seen room toVisit = c.climb seen room toVisit := by
  have hlookup : (c.setAncestorLimit limit).lookupType? = c.lookupType? := rfl
  have hparents : (c.setAncestorLimit limit).parentsAt = c.parentsAt := rfl
  fun_induction climb c seen room toVisit with
  | case1 seen room => rw [climb]
  | case2 seen room next rest hseen ih => rw [climb_cons_of_mem _ _ hseen, ih]
  | case3 seen room next rest hseen hnone others ih =>
      rw [← hlookup] at hnone
      rw [climb_cons_of_undeclared _ _ hseen hnone, ih]
      simp [Ancestors.followedBy, others]
  | case4 seen next rest hseen s hs =>
      rw [← hlookup] at hs
      rw [climb_cons_of_full _ hseen hs]
  | case5 seen next rest hseen s hs room others ih =>
      rw [← hlookup] at hs
      rw [climb_cons_of_hasType _ _ hseen hs, hparents, ih]
      simp [Ancestors.followedBy, others]

theorem ancestors_setAncestorLimit (c : Catalog) (limit : Nat) (name : String) :
    (c.setAncestorLimit limit).ancestors name =
      c.climb [Name.key name] (max limit 1) (c.parentsAt name 0) :=
  c.climb_setAncestorLimit limit _ _ _

/-- After any changes the ancestors of a type are the same under all limits that are large enough.
Under any limit the chain is the beginning of this one, with the same relations and depths; it is
marked as cut off if and only if this one is longer than the limit; and the unresolved types are the
first ones of these. -/
theorem limit_cuts_tail (changes : List Change) (name : String) :
    let under (limit : Nat) : Ancestors := ((after changes).setAncestorLimit limit).ancestors name
    ∃ full : Ancestors, full.truncated = false ∧
      (∀ limit, full.chain.length ≤ limit → under limit = full) ∧
      ∀ limit, 1 ≤ limit →
        (under limit).chain = full.chain.take limit ∧
        ((under limit).truncated = true ↔ limit < full.chain.length) ∧
        (under limit).unresolved <+: full.unresolved := by
  intro under
  let c := after changes
  have hindexed : c.graph.Indexed := (wellFormed_after changes).indexed
  have hunder : ∀ limit, under limit = c.climb [Name.key name] (max limit 1) (c.parentsAt name 0) :=
    fun limit => c.ancestors_setAncestorLimit limit name
  refine ⟨c.listed (c.preorder name), rfl, ?_, ?_⟩
  · intro limit hlength
    rw [hunder, climb_eq_listed hindexed (hlength.trans (Nat.le_max_left _ _))]
  · intro limit hpos
    rw [hunder, Nat.max_eq_left hpos, ← climb_eq_listed hindexed (Nat.le_refl _)]
    have hcut := climb_cutAt (c := c) [Name.key name] limit (c.parentsAt name 0)
      (congrArg Ancestors.truncated (climb_eq_listed hindexed (Nat.le_refl _)))
    exact ⟨hcut.chain, hcut.truncated, hcut.unresolved⟩

/-- Of three declared ancestors and an undeclared one that comes after them, two are left, and no
undeclared one; the limit three cuts nothing off. -/
theorem figures_cut_at_two :
    let under (limit : Nat) : Ancestors :=
      ((after figures).setAncestorLimit limit).ancestors "Circle"
    (under 2).chain = [⟨"Scaled", .mixingIn, 1⟩, ⟨"Shape", .extending, 1⟩] ∧
      (under 2).unresolved = [] ∧ (under 2).truncated = true ∧
      (under 3).unresolved = ["Printable"] ∧ (under 3).truncated = false ∧
      (under 2).chain = (under 3).chain.take 2 := by
  intro under
  obtain ⟨hchain, hnone, htwo, hunresolved, hthree⟩ :
      (under 2).chain = [⟨"Scaled", .mixingIn, 1⟩, ⟨"Shape", .extending, 1⟩] ∧
      (under 2).unresolved = [] ∧ (under 2).truncated = true ∧
      (under 3).unresolved = ["Printable"] ∧ (under 3).truncated = false := by decide +kernel
  obtain ⟨full, _, hsame, hcut⟩ := limit_cuts_tail figures "Circle"
  have hcut' : (under 3).truncated = true ↔ 3 < full.chain.length := (hcut 3 (by decide)).2.1
  have hfull : under 3 = full := by
    refine hsame 3 (Nat.not_lt.1 ?_)
    rw [← hcut', hthree]
    simp
  refine ⟨hchain, hnone, htwo, hunresolved, hthree, ?_⟩
  rw [hfull]
  exact (hcut 2 (by decide)).1

end Catalog
end CrossReference
