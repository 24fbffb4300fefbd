import CrossReference.Proofs.Catalog.Lookup
import CrossReference.Proofs.Loop

/-!
# The order of the ancestors

The ancestors of a type are found with a list of types that are still to visit. What comes out is
the preorder of a recursive walk: each direct supertype in the order of lookup, and right after it
all that is above it, where a type that was met before is passed over and an undeclared one leads no
further.

* `Catalog.tour` is the recursive walk, and `Catalog.preorder` its result for a type.
* `Catalog.climb_tour` says that a climb lists what the walk meets and then goes on with the rest.
* `Catalog.key_mem_above_iff` says which types are met, in terms of paths.
* `Catalog.run_climbRound` says that the climb ends.
* `Catalog.ancestors_in_preorder` puts them together.
-/

namespace CrossReference

namespace Graph

/-- The edges whose children have keys outside `seen`. -/
def edgesBeyond (g : Graph) (seen : List String) : List Edge :=
  g.edges.toList.filter (Name.key ·.child ∉ seen)

theorem length_edgesBeyond_append_le (g : Graph) (more seen : List String) :
    (g.edgesBeyond (more ++ seen)).length ≤ (g.edgesBeyond seen).length := by
  refine (List.monotone_filter_right _ ?_).length_le
  intro e he
  simp only [List.mem_append, not_or, decide_eq_true_eq] at he ⊢
  exact he.2

/-- The edges of a type that was not met before are beyond what was met. -/
theorem length_edgesUp_add_edgesBeyond (g : Graph) {name : String} {seen : List String}
    (h : Name.key name ∉ seen) :
    (g.edgesUp name).length + (g.edgesBeyond (Name.key name :: seen)).length =
      (g.edgesBeyond seen).length := by
  have hsplit := List.length_eq_length_filter_add (l := g.edgesBeyond seen)
    (Name.key ·.child = Name.key name)
  have hown : (g.edgesBeyond seen).filter (Name.key ·.child = Name.key name) =
      g.edges.toList.filter (Name.key ·.child = Name.key name) := by
    rw [edgesBeyond, List.filter_filter]
    refine List.filter_congr ?_
    intro e _
    by_cases he : Name.key e.child = Name.key name
    · simp [he, h]
    · simp [he]
  have hothers : (g.edgesBeyond seen).filter (fun e => !(Name.key e.child = Name.key name)) =
      g.edgesBeyond (Name.key name :: seen) := by
    rw [edgesBeyond, List.filter_filter]
    refine List.filter_congr ?_
    intro e _
    simp
  rw [length_edgesUp, hsplit, hown, hothers]

end Graph

/-- The type that an edge leads to, as an ancestor at the given depth. -/
def Edge.ancestorAt (depth : Nat) (e : Edge) : Ancestor where
  name := e.parent
  relation := e.relation
  depth := depth

@[simp] theorem Edge.name_ancestorAt (depth : Nat) (e : Edge) :
    (e.ancestorAt depth).name = e.parent := rfl

/-- The keys `seen`, with those of the types `stops` that were met after them. -/
def seenAfter (stops : List Ancestor) (seen : List String) : List String :=
  (stops.map (Name.key ·.name)).reverse ++ seen

@[simp] theorem seenAfter_nil (seen : List String) : seenAfter [] seen = seen := rfl

@[simp] theorem seenAfter_cons (a : Ancestor) (stops : List Ancestor) (seen : List String) :
    seenAfter (a :: stops) seen = seenAfter stops (Name.key a.name :: seen) := by
  simp [seenAfter]

@[simp] theorem seenAfter_append (xs ys : List Ancestor) (seen : List String) :
    seenAfter (xs ++ ys) seen = seenAfter ys (seenAfter xs seen) := by
  simp [seenAfter]

namespace Catalog

/-! ## The recursive walk -/

/-- The types that a walk along `edges` meets for the first time, where the keys `seen` were met
before. The type at the end of an edge comes first, then all that is above it unless it is
undeclared, then what is met along the other edges. -/
def tour (c : Catalog) (seen : List String) (depth : Nat) : List Edge → List Ancestor
  | [] => []
  | e :: rest =>
    if Name.key e.parent ∈ seen then
      c.tour seen depth rest
    else if c.hasType e.parent then
      let above := c.tour (Name.key e.parent :: seen) (depth + 1) (c.graph.edgesUp e.parent)
      e.ancestorAt depth :: (above ++
        c.tour (seenAfter above (Name.key e.parent :: seen)) depth rest)
    else
      e.ancestorAt depth :: c.tour (Name.key e.parent :: seen) depth rest
termination_by edges => (c.graph.edgesBeyond seen).length + edges.length
decreasing_by
  · simp
  · have := c.graph.length_edgesUp_add_edgesBeyond ‹Name.key e.parent ∉ seen›
    simp only [List.length_cons]
    omega
  · -- Whatever was met above the type, no more edges lie beyond it.
    refine Nat.lt_of_le_of_lt (Nat.add_le_add_right (c.graph.length_edgesBeyond_append_le _ _) _) ?_
    have hcons := c.graph.length_edgesBeyond_append_le [Name.key e.parent] seen
    simp only [List.length_cons, List.singleton_append] at hcons ⊢
    omega
  · have hcons := c.graph.length_edgesBeyond_append_le [Name.key e.parent] seen
    simp only [List.length_cons, List.singleton_append] at hcons ⊢
    omega

/-- The types that the recursive walk up from a type meets, direct supertypes at depth one. -/
def preorder (c : Catalog) (name : String) : List Ancestor :=
  c.tour [Name.key name] 1 (c.graph.edgesUp name)

/-- An ancestor under the name of its declaration, if it has one. -/
def declared? (c : Catalog) (a : Ancestor) : Option Ancestor :=
  (c.lookupType? a.name).map fun s => { a with name := s.qualifiedName }

/-- What is told of the types that were met: the declared ones make up the chain, and the others are
unresolved. -/
def listed (c : Catalog) (stops : List Ancestor) : Ancestors where
  chain := stops.filterMap c.declared?
  unresolved := (stops.filter fun a => !c.hasType a.name).map Ancestor.name

end Catalog

/-- Ancestors with more that come after them. -/
def Ancestors.followedBy (a b : Ancestors) : Ancestors where
  chain := a.chain ++ b.chain
  unresolved := a.unresolved ++ b.unresolved
  truncated := a.truncated || b.truncated

@[simp] theorem Ancestors.followedBy_nil (a : Ancestors) : a.followedBy {} = a := by
  simp [followedBy]

@[simp] theorem Ancestors.nil_followedBy (a : Ancestors) : ({} : Ancestors).followedBy a = a := by
  simp [followedBy]

theorem Ancestors.followedBy_assoc (a b d : Ancestors) :
    (a.followedBy b).followedBy d = a.followedBy (b.followedBy d) := by
  simp [followedBy, Bool.or_assoc]

namespace Catalog

variable {c : Catalog}

theorem listed_append (c : Catalog) (xs ys : List Ancestor) :
    c.listed (xs ++ ys) = (c.listed xs).followedBy (c.listed ys) := by
  simp [listed, Ancestors.followedBy]

theorem listed_cons_of_hasType {a : Ancestor} {s : Symbol} (h : c.lookupType? a.name = some s)
    (stops : List Ancestor) :
    c.listed (a :: stops) =
      Ancestors.followedBy { chain := [{ a with name := s.qualifiedName }] } (c.listed stops) := by
  simp [listed, Ancestors.followedBy, declared?, h, hasType]

theorem listed_cons_of_undeclared {a : Ancestor} (h : c.lookupType? a.name = none)
    (stops : List Ancestor) :
    c.listed (a :: stops) = Ancestors.followedBy { unresolved := [a.name] } (c.listed stops) := by
  simp [listed, Ancestors.followedBy, declared?, h, hasType]

theorem parentsAt_eq (hc : c.graph.Indexed) (name : String) (depth : Nat) :
    c.parentsAt name depth = (c.graph.edgesUp name).map (Edge.ancestorAt (depth + 1)) := by
  rw [parentsAt, hc.supertypes_eq]
  rfl

/-! ## The climb, one type after the other -/

section Rounds

variable {seen : List String} {next : Ancestor} (room : Nat) (rest : List Ancestor)

theorem climb_cons_of_mem (h : Name.key next.name ∈ seen) :
    c.climb seen room (next :: rest) = c.climb seen room rest := by
  rw [climb, if_pos h]

theorem climb_cons_of_undeclared (hseen : Name.key next.name ∉ seen)
    (h : c.lookupType? next.name = none) :
    c.climb seen room (next :: rest) =
      Ancestors.followedBy { unresolved := [next.name] }
        (c.climb (Name.key next.name :: seen) room rest) := by
  rw [climb, if_neg hseen, h]
  simp [Ancestors.followedBy]

theorem climb_cons_of_full (hseen : Name.key next.name ∉ seen) {s : Symbol}
    (h : c.lookupType? next.name = some s) :
    c.climb seen 0 (next :: rest) = { truncated := true } := by
  rw [climb, if_neg hseen, h]

theorem climb_cons_of_hasType (hseen : Name.key next.name ∉ seen) {s : Symbol}
    (h : c.lookupType? next.name = some s) :
    c.climb seen (room + 1) (next :: rest) =
      Ancestors.followedBy { chain := [{ next with name := s.qualifiedName }] }
        (c.climb (Name.key next.name :: seen) room
          (c.parentsAt next.name next.depth ++ rest)) := by
  rw [climb, if_neg hseen, h]
  simp [Ancestors.followedBy]

end Rounds

/-- A climb lists what the recursive walk meets and goes on with the rest, as long as there is
room. -/
theorem climb_tour (hc : c.graph.Indexed) (seen : List String) (depth : Nat) (edges : List Edge)
    {room : Nat} (rest : List Ancestor)
    (hroom : (c.listed (c.tour seen depth edges)).chain.length ≤ room) :
    c.climb seen room (edges.map (Edge.ancestorAt depth) ++ rest) =
      (c.listed (c.tour seen depth edges)).followedBy
        (c.climb (seenAfter (c.tour seen depth edges) seen)
          (room - (c.listed (c.tour seen depth edges)).chain.length) rest) := by
  fun_induction tour c seen depth edges generalizing room rest with
  | case1 seen depth => exact (Ancestors.nil_followedBy _).symm
  | case2 seen depth e edges hseen ih =>
      rw [← e.name_ancestorAt depth] at hseen
      rw [List.map_cons, List.cons_append, climb_cons_of_mem _ _ hseen]
      exact ih rest hroom
  | case3 seen depth e edges hseen htype above ihabove =>
      rename_i ihothers
      rw [show c.tour _ _ (c.graph.edgesUp e.parent) = above from rfl] at ihabove
      clear_value above
      obtain ⟨s, hs⟩ := Option.isSome_iff_exists.1 htype
      rw [← e.name_ancestorAt depth] at hseen hs
      rw [listed_cons_of_hasType hs, listed_append] at hroom ⊢
      generalize c.tour (seenAfter above (Name.key e.parent :: seen)) depth edges = others
        at hroom ihothers ⊢
      simp only [Ancestors.followedBy, List.length_append, List.length_singleton] at hroom
      -- The type itself takes a place in the chain.
      obtain ⟨room, rfl⟩ : ∃ r, room = r + 1 := ⟨room - 1, by omega⟩
      have hplaces : room + 1 - (1 + ((c.listed above).chain.length +
          (c.listed others).chain.length)) =
            room - (c.listed above).chain.length - (c.listed others).chain.length := by omega
      rw [List.map_cons, List.cons_append, climb_cons_of_hasType _ _ hseen hs,
        parentsAt_eq hc, Edge.name_ancestorAt]
      rw [show (e.ancestorAt depth).depth = depth from rfl, ihabove _ (by omega),
        ihothers rest (by omega), Ancestors.followedBy_assoc, Ancestors.followedBy_assoc,
        seenAfter_cons, seenAfter_append]
      simp only [Ancestors.followedBy, List.length_append, List.length_singleton, hplaces,
        Edge.name_ancestorAt]
  | case4 seen depth e edges hseen htype ih =>
      have hnone : c.lookupType? (e.ancestorAt depth).name = none := by
        simpa [hasType] using htype
      rw [← e.name_ancestorAt depth] at hseen
      rw [listed_cons_of_undeclared hnone] at hroom ⊢
      rw [List.map_cons, List.cons_append, climb_cons_of_undeclared _ _ hseen hnone,
        Edge.name_ancestorAt, ih rest (by simpa [Ancestors.followedBy] using hroom),
        seenAfter_cons, Ancestors.followedBy_assoc]
      simp [Ancestors.followedBy]

theorem seenAfter_eq (stops : List Ancestor) (seen : List String) :
    seenAfter stops seen = ((stops.map Ancestor.name).map Name.key).reverse ++ seen := by
  rw [seenAfter, List.map_map]
  rfl

/-- The recursive walk meets the types that a climb meets, in the same order. -/
theorem map_name_tour (hc : c.graph.Indexed) (seen : List String) (depth : Nat)
    (edges : List Edge) :
    (c.tour seen depth edges).map Ancestor.name = c.met seen (edges.map Edge.parent) := by
  fun_induction tour c seen depth edges with
  | case1 seen depth => simp [met]
  | case2 seen depth e edges hseen ih => rw [ih, List.map_cons, met, if_pos hseen]
  | case3 seen depth e edges hseen htype above ihabove =>
      rename_i ihothers
      rw [show c.tour _ _ (c.graph.edgesUp e.parent) = above from rfl, ← parentNames_eq hc]
        at ihabove
      rw [seenAfter_eq, ihabove] at ihothers
      rw [List.map_cons, List.map_append, seenAfter_eq, ihabove, ihothers, List.map_cons,
        met_cons_of_hasType hseen htype]
      rfl
  | case4 seen depth e edges hseen htype ih =>
      rw [List.map_cons, ih, List.map_cons, met, if_neg hseen, if_neg htype]
      rfl

theorem map_name_preorder (hc : c.graph.Indexed) (name : String) :
    (c.preorder name).map Ancestor.name = c.above name := by
  rw [preorder, map_name_tour hc, ← parentNames_eq hc]
  rfl

/-! ## The chain and the unresolved types -/

/-- The keys in the chain are those of the declared types that were met. -/
theorem map_key_listed_chain (howned : c.Owned) (stops : List Ancestor) :
    (c.listed stops).chain.map (Name.key ·.name) =
      ((stops.map Ancestor.name).filter c.hasType).map Name.key := by
  induction stops with
  | nil => rfl
  | cons a stops ih =>
      cases h : c.lookupType? a.name with
      | none =>
          have htype : c.hasType a.name = false := by simp [hasType, h]
          rw [listed_cons_of_undeclared h, List.map_cons, List.filter_cons_of_neg (by simp [htype])]
          exact ih
      | some s =>
          have htype : c.hasType a.name = true := by simp [hasType, h]
          have hkey : Name.key s.qualifiedName = Name.key a.name := by
            rw [← key_declaredName howned a.name, declaredName, h]
            rfl
          rw [listed_cons_of_hasType h, List.map_cons, List.filter_cons_of_pos htype, List.map_cons,
            ← ih, ← hkey]
          rfl

theorem listed_unresolved (c : Catalog) (stops : List Ancestor) :
    (c.listed stops).unresolved = (stops.map Ancestor.name).filter (!c.hasType ·) := by
  rw [List.filter_map]
  rfl

/-- If there is room for all of it, a climb from a type lists what the recursive walk meets. -/
theorem climb_eq_listed (hc : c.graph.Indexed) {name : String} {room : Nat}
    (hroom : (c.listed (c.preorder name)).chain.length ≤ room) :
    c.climb [Name.key name] room (c.parentsAt name 0) = c.listed (c.preorder name) := by
  have hclimb := climb_tour hc [Name.key name] 1 (c.graph.edgesUp name) [] hroom
  rw [List.append_nil] at hclimb
  rw [parentsAt_eq hc, hclimb, climb, Ancestors.followedBy_nil]
  rfl

/-- If nothing is cut off, the ancestors are what the recursive walk meets. -/
theorem ancestors_eq_listed (howned : c.Owned) (hc : c.graph.Indexed) {name : String}
    (h : (c.ancestors name).truncated = false) :
    c.ancestors name = c.listed (c.preorder name) := by
  rw [← Bool.not_eq_true, truncated_ancestors_iff, Nat.not_lt] at h
  have hlength : (c.listed (c.preorder name)).chain.length = (c.typesAbove name).length := by
    have hkeys := congrArg List.length (map_key_listed_chain howned (c.preorder name))
    rwa [List.length_map, map_name_preorder hc, List.length_map] at hkeys
  exact climb_eq_listed hc (hlength.trans_le h)

/-- A step up from one type to a declared one. -/
def StepsUp (c : Catalog) (a b : String) : Prop :=
  c.graph.Leads a b ∧ c.hasType b = true

theorem hasType_key (c : Catalog) (name : String) : c.hasType (Name.key name) = c.hasType name :=
  c.keyed_hasType _ _ (Name.key_key name)

theorem exists_parentName_of_leads (hc : c.graph.Indexed) {name k : String}
    (h : c.graph.Leads (Name.key name) k) : ∃ parent ∈ c.parentNames name, Name.key parent = k := by
  obtain ⟨e, he, hchild, hparent⟩ := h
  have hsuper : e ∈ c.graph.supertypes name :=
    Graph.mem_supertypes_iff.2 (hc.mem_edgesFrom_iff.2 ⟨he, hchild⟩)
  exact ⟨e.parent, List.mem_map_of_mem hsuper, hparent⟩

/-- A type is met if an edge leads to it from the type or from one that can be reached through
declared types. -/
theorem key_mem_above_iff (hc : c.graph.WellFormed) (name k : String) :
    k ∈ (c.above name).map Name.key ↔
      ∃ below, Relation.ReflTransGen c.StepsUp (Name.key name) below ∧ c.graph.Leads below k := by
  constructor
  · intro hk
    obtain ⟨n, hn, rfl⟩ := List.mem_map.1 hk
    refine met_induction (P := fun n => ∃ below,
      Relation.ReflTransGen c.StepsUp (Name.key name) below ∧ c.graph.Leads below (Name.key n))
      ?_ ?_ n hn
    · intro parent hparent
      exact ⟨_, .refl, leads_of_mem_parentNames hc hparent⟩
    · rintro n htype ⟨below, hpath, hlead⟩ parent hparent
      rw [← hasType_key] at htype
      exact ⟨_, hpath.tail ⟨hlead, htype⟩, leads_of_mem_parentNames hc hparent⟩
  · rintro ⟨below, hpath, hlead⟩
    obtain ⟨hfirst, hclosed⟩ := key_mem_above hc name
    -- The edges of the type and of the declared types that are met lead to types that are met.
    have hstep : ∀ a b, (a = Name.key name ∨ ∃ n ∈ c.above name, c.hasType n = true ∧
        Name.key n = a) → c.graph.Leads a b → b ∈ (c.above name).map Name.key := by
      rintro a b (rfl | ⟨n, hn, htype, rfl⟩) hlead
      · obtain ⟨parent, hparent, rfl⟩ := exists_parentName_of_leads hc.indexed hlead
        exact hfirst parent hparent
      · obtain ⟨parent, hparent, rfl⟩ := exists_parentName_of_leads hc.indexed hlead
        exact hclosed n hn htype parent hparent
    refine hstep below k ?_ hlead
    clear hlead
    induction hpath with
    | refl => exact .inl rfl
    | @tail a b _ hup ih =>
        obtain ⟨n, hn, rfl⟩ := List.mem_map.1 (hstep a b ih hup.1)
        exact .inr ⟨n, hn, (c.hasType_key n).symm.trans hup.2, rfl⟩

theorem mem_map_key_filter_iff {p : String → Bool} (hp : Keyed p) (names : List String)
    (k : String) :
    k ∈ (names.filter p).map Name.key ↔ k ∈ names.map Name.key ∧ p k = true := by
  have hkey : ∀ n, p (Name.key n) = p n := fun n => hp _ _ (Name.key_key n)
  constructor
  · intro hk
    obtain ⟨n, hn, rfl⟩ := List.mem_map.1 hk
    obtain ⟨hmem, hn⟩ := List.mem_filter.1 hn
    exact ⟨List.mem_map_of_mem hmem, (hkey n).trans hn⟩
  · rintro ⟨hk, hpk⟩
    obtain ⟨n, hn, rfl⟩ := List.mem_map.1 hk
    exact List.mem_map_of_mem (List.mem_filter.2 ⟨hn, (hkey n).symm.trans hpk⟩)

/-- The declared types that are met are those that can be reached through declared types. -/
theorem key_mem_typesAbove_iff (hc : c.graph.WellFormed) (name k : String) :
    k ∈ (c.typesAbove name).map Name.key ↔
      Relation.TransGen c.StepsUp (Name.key name) k := by
  rw [typesAbove, mem_map_key_filter_iff c.keyed_hasType, key_mem_above_iff hc,
    Relation.TransGen.tail'_iff]
  constructor
  · rintro ⟨⟨below, hpath, hlead⟩, htype⟩
    exact ⟨below, hpath, hlead, htype⟩
  · rintro ⟨below, hpath, hlead, htype⟩
    exact ⟨⟨below, hpath, hlead⟩, htype⟩

/-! ## The climb ends -/

/-- Where a climb is: the keys that were met, the types to visit, and what was found so far. -/
structure ClimbState where
  seen : List String
  toVisit : List Ancestor
  found : Ancestors := {}

/-- A climb from the type `name` begins with its direct supertypes. -/
def climbStart (c : Catalog) (name : String) : ClimbState where
  seen := [Name.key name]
  toVisit := c.parentsAt name 0

/-- One round of a climb. -/
def climbRound (c : Catalog) (s : ClimbState) : Round ClimbState Ancestors :=
  match s.toVisit with
  | [] => .done s.found
  | next :: rest =>
    if Name.key next.name ∈ s.seen then
      .next { s with toVisit := rest }
    else
      match c.lookupType? next.name with
      | none =>
        .next
          { seen := Name.key next.name :: s.seen
            toVisit := rest
            found := s.found.followedBy { unresolved := [next.name] } }
      | some type =>
        if s.found.chain.length < c.ancestorLimit then
          .next
            { seen := Name.key next.name :: s.seen
              toVisit := c.parentsAt next.name next.depth ++ rest
              found := s.found.followedBy
                { chain := [{ next with name := type.qualifiedName }] } }
        else
          .done (s.found.followedBy { truncated := true })

/-- What a climb comes to. -/
def climbed (c : Catalog) (s : ClimbState) : Ancestors :=
  s.found.followedBy (c.climb s.seen (c.ancestorLimit - s.found.chain.length) s.toVisit)

theorem next_climbRound {s s' : ClimbState} (h : c.climbRound s = .next s') :
    c.graph.unseenEdges s'.seen + s'.toVisit.length <
        c.graph.unseenEdges s.seen + s.toVisit.length ∧
      c.climbed s' = c.climbed s := by
  obtain ⟨seen, toVisit, found⟩ := s
  cases toVisit with
  | nil => exact absurd h (by simp [climbRound])
  | cons next rest =>
      by_cases hseen : Name.key next.name ∈ seen
      · obtain rfl : { seen := seen, toVisit := rest, found := found } = s' := by
          simpa [climbRound, hseen] using h
        simp only [climbed, climb_cons_of_mem _ _ hseen, and_true]
        simp
      cases htype : c.lookupType? next.name with
      | none =>
          have hround : ClimbState.mk (Name.key next.name :: seen) rest
              (found.followedBy { unresolved := [next.name] }) = s' := by
            simpa [climbRound, hseen, htype] using h
          subst hround
          refine ⟨?_, ?_⟩
          · have hcons := c.graph.unseenEdges_cons_le seen (Name.key next.name)
            simp only [List.length_cons]
            omega
          · simp only [climbed, climb_cons_of_undeclared _ _ hseen htype]
            rw [Ancestors.followedBy_assoc]
            simp [Ancestors.followedBy]
      | some type =>
          by_cases hroom : found.chain.length < c.ancestorLimit
          · have hround : ClimbState.mk (Name.key next.name :: seen)
                (c.parentsAt next.name next.depth ++ rest)
                (found.followedBy { chain := [{ next with name := type.qualifiedName }] }) =
                  s' := by
              simpa [climbRound, hseen, htype, hroom] using h
            subst hround
            refine ⟨?_, ?_⟩
            · -- The edges of the type are to be visited now, and are no longer unseen.
              have hedges := c.graph.length_edgesFrom_add_unseenEdges_le hseen
              simp only [List.length_append, List.length_cons, length_parentsAt]
              omega
            · obtain ⟨room, hrest⟩ : ∃ room, c.ancestorLimit - found.chain.length = room + 1 :=
                ⟨c.ancestorLimit - found.chain.length - 1, by omega⟩
              have hlength : c.ancestorLimit - (found.chain.length + 1) = room := by omega
              simp only [climbed, hrest, climb_cons_of_hasType _ _ hseen htype]
              rw [Ancestors.followedBy_assoc]
              simp [Ancestors.followedBy, hlength]
          · exact absurd h (by simp [climbRound, hseen, htype, hroom])

theorem done_climbRound {s : ClimbState} {result : Ancestors} (h : c.climbRound s = .done result) :
    result = c.climbed s := by
  obtain ⟨seen, toVisit, found⟩ := s
  cases toVisit with
  | nil =>
      obtain rfl : found = result := by simpa [climbRound] using h
      rw [climbed, climb, Ancestors.followedBy_nil]
  | cons next rest =>
      by_cases hseen : Name.key next.name ∈ seen
      · exact absurd h (by simp [climbRound, hseen])
      cases htype : c.lookupType? next.name with
      | none => exact absurd h (by simp [climbRound, hseen, htype])
      | some type =>
          by_cases hroom : found.chain.length < c.ancestorLimit
          · exact absurd h (by simp [climbRound, hseen, htype, hroom])
          · obtain rfl : found.followedBy { truncated := true } = result := by
              simpa [climbRound, hseen, htype, hroom] using h
            have hnone : c.ancestorLimit - found.chain.length = 0 := by omega
            simp only [climbed, hnone, climb_cons_of_full _ hseen htype]

/-- The climb from a type ends, after at most one round more than the index has edges. -/
theorem run_climbRound (c : Catalog) (name : String) :
    Loop.run c.climbRound (c.graph.unseenEdges [] + 1) (c.climbStart name) =
      some (c.ancestors name) := by
  have hedges := c.graph.length_edgesFrom_add_unseenEdges_le (List.not_mem_nil (a := Name.key name))
  have hstart : c.graph.unseenEdges (c.climbStart name).seen +
      (c.climbStart name).toVisit.length < c.graph.unseenEdges [] + 1 := by
    simp only [climbStart, length_parentsAt]
    omega
  have hrun := Loop.run_eq_some
    (fun s : ClimbState => c.graph.unseenEdges s.seen + s.toVisit.length) c.climbed
    (fun _ _ => next_climbRound) (fun _ _ => done_climbRound) hstart
  rw [hrun]
  simp [climbed, climbStart, ancestors]

/-! ## Every catalog -/

/-- After any changes the climb from a type ends. If its ancestors are not cut off, they are what
the recursive walk up from the type meets, in preorder. The chain holds once each, up to case, the
declared types that can be reached through declared types, and never the type itself; and what is
unresolved are, once each, the undeclared direct supertypes of the type and of those in the chain.
-/
theorem ancestors_in_preorder (changes : List Change) (name : String) :
    let c := after changes
    let keys := (c.ancestors name).chain.map (Name.key ·.name)
    let missing := (c.ancestors name).unresolved.map Name.key
    Loop.run c.climbRound (c.graph.unseenEdges [] + 1) (c.climbStart name) =
        some (c.ancestors name) ∧
      ((c.ancestors name).truncated = false →
        c.ancestors name = c.listed (c.preorder name) ∧
        (keys.Nodup ∧ Name.key name ∉ keys ∧
          ∀ k, k ∈ keys ↔ Relation.TransGen
            (fun a b => c.graph.Leads a b ∧ c.hasType b = true) (Name.key name) k) ∧
        missing.Nodup ∧
          ∀ k, k ∈ missing ↔ c.hasType k = false ∧
            (c.graph.Leads (Name.key name) k ∨
              ∃ a ∈ (c.ancestors name).chain, c.graph.Leads (Name.key a.name) k)) := by
  intro c keys missing
  refine ⟨c.run_climbRound name, ?_⟩
  intro h
  have howned : c.Owned := owned_after changes
  have hc : c.graph.WellFormed := wellFormed_after changes
  have hlisted := ancestors_eq_listed howned hc.indexed h
  have hkeys : keys = (c.typesAbove name).map Name.key := by
    simp only [keys, hlisted, map_key_listed_chain howned, map_name_preorder hc.indexed]
    rfl
  have hmissing : missing = ((c.above name).filter (!c.hasType ·)).map Name.key := by
    simp only [missing, hlisted, listed_unresolved, map_name_preorder hc.indexed]
  obtain ⟨hnodup, hnew⟩ := c.nodup_met [Name.key name] (c.parentNames name)
  have hchain : ∀ k, k ∈ keys ↔ Relation.TransGen c.StepsUp (Name.key name) k := by
    intro k
    rw [hkeys]
    exact key_mem_typesAbove_iff hc name k
  refine ⟨hlisted, ⟨?_, ?_, hchain⟩, ?_, ?_⟩
  · rw [hkeys]
    exact hnodup.sublist (List.filter_sublist.map _)
  · rw [hkeys]
    intro hmem
    have habove := (List.filter_sublist.map Name.key).subset hmem
    exact hnew _ habove List.mem_cons_self
  · rw [hmissing]
    exact hnodup.sublist (List.filter_sublist.map _)
  · intro k
    have hkeyed : Keyed fun n => !c.hasType n := by
      intro a b hab
      exact congrArg not (c.keyed_hasType a b hab)
    rw [hmissing, mem_map_key_filter_iff hkeyed, key_mem_above_iff hc, Bool.not_eq_true', and_comm]
    refine and_congr_right fun _ => ?_
    constructor
    · rintro ⟨below, hpath, hlead⟩
      rcases Relation.reflTransGen_iff_eq_or_transGen.1 hpath with rfl | hpath
      · exact .inl hlead
      · obtain ⟨a, ha, rfl⟩ := List.mem_map.1 ((hchain below).2 hpath)
        exact .inr ⟨a, ha, hlead⟩
    · rintro (hlead | ⟨a, ha, hlead⟩)
      · exact ⟨_, .refl, hlead⟩
      · have hpath := (hchain _).1 (List.mem_map_of_mem ha)
        exact ⟨_, hpath.to_reflTransGen, hlead⟩

/-- A class with a trait, a parent and an interface that the parent has as well. The parent also has
an interface that is not declared. -/
def figures : List Change :=
  [.declare (.ofName (.type .classDecl) "Circle" ⟨0⟩),
   .declare { Symbol.ofName (.type .classDecl) "Shape" ⟨0⟩ with handlers := { call := true } },
   .declare (.ofName (.type .traitDecl) "Scaled" ⟨0⟩),
   .declare (.ofName (.type .interfaceDecl) "Drawable" ⟨0⟩),
   .declare (.ofName .constant "Drawable::DEPTH" ⟨0⟩),
   .relate "Circle" "Drawable" .implementing,
   .relate "Circle" "\\SHAPE" .extending,
   .relate "Circle" "Scaled" .mixingIn,
   .relate "shape" "drawable" .implementing,
   .relate "Shape" "Printable" .implementing]

/-- The interface is met on the way through the parent, and passed over later. -/
theorem figures_in_preorder :
    let c := after figures
    (c.ancestors "Circle").truncated = false ∧
      (c.ancestors "Circle").names = ["Scaled", "Shape", "Drawable"] ∧
      (c.ancestors "Circle").unresolved = ["Printable"] ∧
      c.ancestors "Circle" = c.listed (c.preorder "Circle") := by
  intro c
  have hlists : (c.ancestors "Circle").truncated = false ∧
      (c.ancestors "Circle").names = ["Scaled", "Shape", "Drawable"] ∧
      (c.ancestors "Circle").unresolved = ["Printable"] := by decide +kernel
  have hpreorder := (ancestors_in_preorder figures "Circle").2 hlists.1
  exact ⟨hlists.1, hlists.2.1, hlists.2.2, hpreorder.1⟩

end Catalog
end CrossReference
