import CrossReference.Hierarchy.Graph
import CrossReference.Proofs.Loop
import Mathlib.Data.List.Induction
import Mathlib.Data.List.Sort
import Mathlib.Logic.Relation

/-!
# Paths of supertype edges

The edges of a graph as a relation between keys, and what the search for a path has to do with it.

* `Graph.Leads` is the relation of the edges, read off the edges alone.
* `Graph.Indexed` says that the index by child lists exactly the places of the edges, in order.
* `Graph.edgesUp` lists the edges of a type in the order of lookup, and
  `Graph.Indexed.supertypes_eq` says that an indexed graph gives them.
* `Graph.Indexed.reaches_iff` says that in an indexed graph the search finds a path exactly when
  there is one, and `Graph.run_searchRound` that it ends in any graph.
-/

namespace CrossReference

theorem filterMap_getElem?_range {α β : Type} (l : List α) (g : α → Option β) :
    (List.range l.length).filterMap (fun i => l[i]?.bind g) = l.filterMap g := by
  induction l using List.reverseRecOn with
  | nil => rfl
  | append_singleton l a ih =>
      have hfront : (List.range l.length).filterMap (fun i => (l ++ [a])[i]?.bind g) =
          (List.range l.length).filterMap fun i => l[i]?.bind g := by
        refine List.filterMap_congr ?_
        intro i hi
        rw [List.getElem?_append_left (List.mem_range.1 hi)]
      rw [List.length_append, List.length_singleton, List.range_succ, List.filterMap_append, hfront,
        ih, List.filterMap_append]
      cases hg : g a with
      | none => simp [hg]
      | some b => simp [hg]

namespace Graph

/-- The places of the edges that leave the type with key `k`, as the index has them. -/
def places (g : Graph) (k : String) : List Nat :=
  (g.outgoing.find? k).getD []

/-- An edge leads from the type with key `a` to the type with key `b`. -/
def Leads (g : Graph) (a b : String) : Prop :=
  ∃ e ∈ g.edges, Name.key e.child = a ∧ Name.key e.parent = b

/-- The index lists the places of the edges of each child, each place once and in order. -/
structure Indexed (g : Graph) : Prop where
  mem_places_iff : ∀ k i, i ∈ g.places k ↔ ∃ e, g.edges[i]? = some e ∧ Name.key e.child = k
  places_sorted : ∀ k, (g.places k).Pairwise (· < ·)

theorem edgesFrom_eq (g : Graph) (k : String) :
    g.edgesFrom k = (g.places k).filterMap (g.edges[·]?) := rfl

/-- An indexed graph finds the edges of a child and no others. -/
theorem Indexed.mem_edgesFrom_iff {g : Graph} (hg : g.Indexed) {k : String} {e : Edge} :
    e ∈ g.edgesFrom k ↔ e ∈ g.edges ∧ Name.key e.child = k := by
  rw [edgesFrom_eq, List.mem_filterMap]
  constructor
  · rintro ⟨i, hi, he⟩
    obtain ⟨e', he', hk⟩ := (hg.mem_places_iff k i).1 hi
    have hee : e' = e := Option.some.inj (he'.symm.trans he)
    exact ⟨Array.mem_of_getElem? he, hee ▸ hk⟩
  · rintro ⟨he, hk⟩
    obtain ⟨i, hi⟩ := Array.getElem?_of_mem he
    exact ⟨i, (hg.mem_places_iff k i).2 ⟨e, hi, hk⟩, hi⟩

theorem Indexed.mem_parentKeys_iff {g : Graph} (hg : g.Indexed) {a b : String} :
    b ∈ g.parentKeys a ↔ g.Leads a b := by
  unfold parentKeys Leads
  rw [List.mem_map]
  constructor
  · rintro ⟨e, he, hb⟩
    obtain ⟨hmem, ha⟩ := hg.mem_edgesFrom_iff.1 he
    exact ⟨e, hmem, ha, hb⟩
  · rintro ⟨e, hmem, ha, hb⟩
    exact ⟨e, hg.mem_edgesFrom_iff.2 ⟨hmem, ha⟩, hb⟩

/-! ## The order of the edges of a type -/

/-- The index has the places of the edges of a child as one comes across them. -/
theorem Indexed.places_eq {g : Graph} (hg : g.Indexed) (k : String) :
    g.places k = (List.range g.edges.toList.length).filter fun i =>
      g.edges.toList[i]?.any (Name.key ·.child = k) := by
  refine (hg.places_sorted k).eq_of_mem_iff (List.pairwise_lt_range.filter _) ?_
  intro i
  rw [hg.mem_places_iff, List.mem_filter, List.mem_range, Array.getElem?_toList]
  constructor
  · rintro ⟨e, he, hk⟩
    obtain ⟨hlt, _⟩ := Array.getElem?_eq_some_iff.1 he
    exact ⟨hlt, by simp [he, hk]⟩
  · rintro ⟨_, hany⟩
    cases he : g.edges[i]? with
    | none => simp [he] at hany
    | some e => exact ⟨e, rfl, by simpa [he] using hany⟩

/-- The edges of a child come in the order of insertion. -/
theorem Indexed.edgesFrom_eq_filter {g : Graph} (hg : g.Indexed) (k : String) :
    g.edgesFrom k = g.edges.toList.filter (Name.key ·.child = k) := by
  rw [edgesFrom_eq, hg.places_eq, List.filterMap_filter, ← List.filterMap_eq_filter,
    ← filterMap_getElem?_range g.edges.toList]
  refine List.filterMap_congr ?_
  intro i _
  rw [← Array.getElem?_toList]
  cases g.edges.toList[i]? with
  | none => rfl
  | some e => simp [Option.guard]

/-- The edges to the direct supertypes of a type, read off the edges alone: its traits, then what it
extends, then its interfaces, and each of these in the order of insertion. -/
def edgesUp (g : Graph) (name : String) : List Edge :=
  [Relation.mixingIn, .extending, .implementing].flatMap fun relation =>
    g.edges.toList.filter fun e => Name.key e.child = Name.key name ∧ e.relation = relation

theorem edgesUp_eq (g : Graph) (name : String) :
    g.edgesUp name =
      let edges := g.edges.toList.filter (Name.key ·.child = Name.key name)
      edges.filter (·.relation = .mixingIn) ++
        (edges.filter (·.relation = .extending) ++ edges.filter (·.relation = .implementing)) := by
  simp [edgesUp, List.filter_filter, and_comm]

theorem Indexed.supertypes_eq {g : Graph} (hg : g.Indexed) (name : String) :
    g.supertypes name = g.edgesUp name := by
  rw [supertypes, hg.edgesFrom_eq_filter, edgesUp_eq]

theorem length_edgesUp (g : Graph) (name : String) :
    (g.edgesUp name).length =
      (g.edges.toList.filter (Name.key ·.child = Name.key name)).length := by
  rw [edgesUp_eq]
  exact length_filter_relations _

/-! ## The search -/

/-- What the search finds is there. -/
theorem Indexed.path_of_reachesFrom {g : Graph} (hg : g.Indexed) {target : String}
    {seen toVisit : List String} (h : g.reachesFrom target seen toVisit = true) :
    ∃ k ∈ toVisit, Relation.ReflTransGen g.Leads k target := by
  fun_induction reachesFrom g target seen toVisit with
  | case1 seen => exact absurd h Bool.false_ne_true
  | case2 seen rest => exact ⟨target, by simp, .refl⟩
  | case3 seen k rest hne hseen ih =>
      obtain ⟨k', hk', hpath⟩ := ih h
      exact ⟨k', List.mem_cons_of_mem k hk', hpath⟩
  | case4 seen k rest hne hseen ih =>
      obtain ⟨k', hk', hpath⟩ := ih h
      rcases List.mem_append.1 hk' with hparent | hrest
      · have hlead := hg.mem_parentKeys_iff.1 (List.mem_reverse.1 hparent)
        exact ⟨k, by simp, .head hlead hpath⟩
      · exact ⟨k', List.mem_cons_of_mem k hrest, hpath⟩

/-- A search that fails has met everything that can be reached. What carries the induction is that
each parent of a type that was met was met itself or is still to visit. -/
theorem Indexed.no_path_of_reachesFrom {g : Graph} (hg : g.Indexed) {target : String}
    {seen toVisit : List String} (h : g.reachesFrom target seen toVisit = false)
    (htarget : target ∉ seen)
    (hclosed : ∀ a ∈ seen, ∀ b, g.Leads a b → b ∈ seen ∨ b ∈ toVisit) :
    ∀ k, k ∈ seen ∨ k ∈ toVisit → ¬ Relation.ReflTransGen g.Leads k target := by
  fun_induction reachesFrom g target seen toVisit with
  | case1 seen =>
      intro k hk hpath
      -- Nothing is left to visit, so no edge leads out of what was met.
      have hstay : ∀ b, Relation.ReflTransGen g.Leads k b → b ∈ seen := by
        intro b hb
        induction hb with
        | refl => simpa using hk
        | tail _ hlead ih => simpa using hclosed _ ih _ hlead
      exact htarget (hstay target hpath)
  | case2 seen rest => exact absurd h.symm Bool.false_ne_true
  | case3 seen k rest hne hseen ih =>
      -- `k` was met before, so it may be dropped from what is to visit.
      have hclosed' : ∀ a ∈ seen, ∀ b, g.Leads a b → b ∈ seen ∨ b ∈ rest := by
        intro a ha b hlead
        rcases hclosed a ha b hlead with hb | hb
        · exact .inl hb
        · rcases List.mem_cons.1 hb with rfl | hrest
          · exact .inl hseen
          · exact .inr hrest
      intro k' hk'
      apply ih h htarget hclosed'
      rcases hk' with hk' | hk'
      · exact .inl hk'
      · rcases List.mem_cons.1 hk' with rfl | hrest
        · exact .inl hseen
        · exact .inr hrest
  | case4 seen k rest hne hseen ih =>
      have htarget' : target ∉ k :: seen := by
        intro hmem
        rcases List.mem_cons.1 hmem with heq | hmem
        · exact hne heq.symm
        · exact htarget hmem
      -- `k` counts as met now, and its parents are to visit.
      have hclosed' : ∀ a ∈ k :: seen, ∀ b, g.Leads a b →
          b ∈ k :: seen ∨ b ∈ (g.parentKeys k).reverse ++ rest := by
        intro a ha b hlead
        rcases List.mem_cons.1 ha with rfl | ha
        · have hparent := List.mem_reverse.2 (hg.mem_parentKeys_iff.2 hlead)
          exact .inr (List.mem_append_left rest hparent)
        · rcases hclosed a ha b hlead with hb | hb
          · exact .inl (List.mem_cons_of_mem k hb)
          · rcases List.mem_cons.1 hb with rfl | hrest
            · exact .inl (by simp)
            · exact .inr (List.mem_append_right _ hrest)
      intro k' hk'
      apply ih h htarget' hclosed'
      rcases hk' with hk' | hk'
      · exact .inl (List.mem_cons_of_mem k hk')
      · rcases List.mem_cons.1 hk' with rfl | hrest
        · exact .inl (by simp)
        · exact .inr (List.mem_append_right _ hrest)

/-- In an indexed graph the search finds a path exactly when there is one. -/
theorem Indexed.reaches_iff {g : Graph} (hg : g.Indexed) {source target : String} :
    g.reaches source target = true ↔
      Relation.ReflTransGen g.Leads (Name.key source) (Name.key target) := by
  unfold reaches
  constructor
  · intro h
    obtain ⟨k, hk, hpath⟩ := hg.path_of_reachesFrom h
    rw [List.mem_singleton] at hk
    subst hk
    exact hpath
  · intro hpath
    cases h : g.reachesFrom (Name.key target) [] [Name.key source] with
    | true => rfl
    | false =>
        have hnone := hg.no_path_of_reachesFrom h (by simp) (by simp) (Name.key source) (by simp)
        exact absurd hpath hnone

/-! ## The search ends -/

/-- Where a search for a path is: the keys that were visited, and the stack of those that are to
be. -/
structure SearchState where
  seen : List String := []
  toVisit : List String

/-- One round of the search for a path to `target`. -/
def searchRound (g : Graph) (target : String) (s : SearchState) : Round SearchState Bool :=
  match s.toVisit with
  | [] => .done false
  | k :: rest =>
    if k = target then .done true
    else if k ∈ s.seen then .next { s with toVisit := rest }
    else .next { seen := k :: s.seen, toVisit := (g.parentKeys k).reverse ++ rest }

theorem next_searchRound {g : Graph} {target : String} {s s' : SearchState}
    (h : g.searchRound target s = .next s') :
    g.unseenEdges s'.seen + s'.toVisit.length < g.unseenEdges s.seen + s.toVisit.length ∧
      g.reachesFrom target s'.seen s'.toVisit = g.reachesFrom target s.seen s.toVisit := by
  obtain ⟨seen, toVisit⟩ := s
  cases toVisit with
  | nil => exact absurd h (by simp [searchRound])
  | cons k rest =>
      by_cases htarget : k = target
      · exact absurd h (by simp [searchRound, htarget])
      by_cases hseen : k ∈ seen
      · obtain rfl : { seen := seen, toVisit := rest } = s' := by
          simpa [searchRound, htarget, hseen] using h
        rw [reachesFrom, if_neg htarget, if_pos hseen]
        exact ⟨by simp, rfl⟩
      · obtain rfl : { seen := k :: seen, toVisit := (g.parentKeys k).reverse ++ rest } = s' := by
          simpa [searchRound, htarget, hseen] using h
        rw [reachesFrom, if_neg htarget, if_neg hseen]
        refine ⟨?_, rfl⟩
        -- The edges of `k` are to be visited now, and are no longer unseen.
        have hedges := g.length_edgesFrom_add_unseenEdges_le hseen
        simp only [parentKeys, List.length_append, List.length_reverse, List.length_map,
          List.length_cons]
        omega

theorem done_searchRound {g : Graph} {target : String} {s : SearchState} {found : Bool}
    (h : g.searchRound target s = .done found) :
    found = g.reachesFrom target s.seen s.toVisit := by
  obtain ⟨seen, toVisit⟩ := s
  cases toVisit with
  | nil =>
      obtain rfl : false = found := by simpa [searchRound] using h
      rw [reachesFrom]
  | cons k rest =>
      by_cases htarget : k = target
      · obtain rfl : true = found := by simpa [searchRound, htarget] using h
        rw [reachesFrom, if_pos htarget]
      by_cases hseen : k ∈ seen
      · exact absurd h (by simp [searchRound, htarget, hseen])
      · exact absurd h (by simp [searchRound, htarget, hseen])

/-- In any graph the search ends, after at most two rounds more than the index has edges. -/
theorem run_searchRound (g : Graph) (source target : String) :
    Loop.run (g.searchRound (Name.key target)) (g.unseenEdges [] + 2)
      { toVisit := [Name.key source] } = some (g.reaches source target) :=
  Loop.run_eq_some (fun s : SearchState => g.unseenEdges s.seen + s.toVisit.length)
    (fun s => g.reachesFrom (Name.key target) s.seen s.toVisit)
    (fun _ _ => next_searchRound) (fun _ _ => done_searchRound) (by simp)

end Graph
end CrossReference
