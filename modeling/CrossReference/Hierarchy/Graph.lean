import CrossReference.Hierarchy.Edge
import CrossReference.OrderedMap

/-!
# The inheritance graph

Edges in the order of insertion, with an index of the edges that leave each type. Types are known by
the keys of their names. An insertion that would close a cycle is refused, so the graph is acyclic.
-/

namespace CrossReference

/-- The edges between types. -/
structure Graph where
  edges : Array Edge := #[]
  /-- For the key of each child, the places of its edges. -/
  outgoing : OrderedMap String (List Nat) := ∅

namespace Graph

instance : EmptyCollection Graph := ⟨{}⟩

instance : Inhabited Graph := ⟨∅⟩

/-- The edges that leave the type with key `k`, in the order of insertion. -/
def edgesFrom (g : Graph) (k : String) : List Edge :=
  ((g.outgoing.find? k).getD []).filterMap (g.edges[·]?)

/-- The keys of the direct supertypes of the type with key `k`. -/
def parentKeys (g : Graph) (k : String) : List String :=
  (g.edgesFrom k).map fun e => Name.key e.parent

/-- The edges, in an index by child, that leave keys outside `seen`. -/
def unseenIn (entries : List (String × List Nat)) (seen : List String) : List Nat :=
  (entries.filter fun entry => entry.1 ∉ seen).flatMap Prod.snd

/-- The number of indexed edges that leave keys outside `seen`. It bounds what a search that has
met `seen` may still come across. -/
def unseenEdges (g : Graph) (seen : List String) : Nat :=
  (unseenIn g.outgoing.entries seen).length

theorem unseenIn_cons_of_mem {entry : String × List Nat} {seen : List String}
    (h : entry.1 ∈ seen) (rest : List (String × List Nat)) :
    unseenIn (entry :: rest) seen = unseenIn rest seen := by
  simp [unseenIn, h]

theorem unseenIn_cons_of_not_mem {entry : String × List Nat} {seen : List String}
    (h : entry.1 ∉ seen) (rest : List (String × List Nat)) :
    unseenIn (entry :: rest) seen = entry.2 ++ unseenIn rest seen := by
  simp [unseenIn, h]

theorem length_unseenIn_cons_le (entries : List (String × List Nat)) (seen : List String)
    (k : String) : (unseenIn entries (k :: seen)).length ≤ (unseenIn entries seen).length := by
  induction entries with
  | nil => exact Nat.le_refl _
  | cons entry rest ih =>
    by_cases hs : entry.1 ∈ seen
    · rw [unseenIn_cons_of_mem hs, unseenIn_cons_of_mem (List.mem_cons_of_mem k hs)]
      exact ih
    · rw [unseenIn_cons_of_not_mem hs, List.length_append]
      by_cases hk : entry.1 = k
      · rw [unseenIn_cons_of_mem (by simp [hk])]
        omega
      · rw [unseenIn_cons_of_not_mem (by simp [hk, hs]), List.length_append]
        omega

theorem length_add_length_unseenIn_le (entries : List (String × List Nat)) {seen : List String}
    {k : String} (hk : k ∉ seen) :
    (((entries.find? fun entry => entry.1 = k).map Prod.snd).getD []).length +
      (unseenIn entries (k :: seen)).length ≤ (unseenIn entries seen).length := by
  induction entries with
  | nil => exact Nat.le_refl _
  | cons entry rest ih =>
    by_cases he : entry.1 = k
    · have hle := length_unseenIn_cons_le rest seen k
      have hout : entry.1 ∉ seen := he ▸ hk
      have hin : entry.1 ∈ k :: seen := by simp [he]
      rw [unseenIn_cons_of_mem hin, unseenIn_cons_of_not_mem hout, List.length_append]
      simp only [List.find?_cons, he, decide_true, Option.map_some, Option.getD_some]
      omega
    · simp only [List.find?_cons, he, decide_false]
      by_cases hs : entry.1 ∈ seen
      · rw [unseenIn_cons_of_mem hs, unseenIn_cons_of_mem (List.mem_cons_of_mem k hs)]
        exact ih
      · rw [unseenIn_cons_of_not_mem hs, unseenIn_cons_of_not_mem (by simp [he, hs]),
          List.length_append, List.length_append]
        omega

theorem length_edgesFrom_le (g : Graph) (k : String) :
    (g.edgesFrom k).length ≤ ((g.outgoing.find? k).getD []).length :=
  List.length_filterMap_le _ _

theorem unseenEdges_cons_le (g : Graph) (seen : List String) (k : String) :
    g.unseenEdges (k :: seen) ≤ g.unseenEdges seen :=
  length_unseenIn_cons_le _ _ _

/-- A newly met type takes its edges out of the unseen ones. -/
theorem length_edgesFrom_add_unseenEdges_le (g : Graph) {seen : List String} {k : String}
    (hk : k ∉ seen) :
    (g.edgesFrom k).length + g.unseenEdges (k :: seen) ≤ g.unseenEdges seen :=
  Nat.le_trans (Nat.add_le_add_right (g.length_edgesFrom_le k) _)
    (length_add_length_unseenIn_le g.outgoing.entries hk)

/-- Whether a path of edges leads to `target` from one of the keys still to visit, where the keys
`seen` were visited already. The keys to visit are a stack, so the last parent of a key comes
first. -/
def reachesFrom (g : Graph) (target : String) (seen : List String) : List String → Bool
  | [] => false
  | k :: rest =>
    if k = target then true
    else if k ∈ seen then g.reachesFrom target seen rest
    else g.reachesFrom target (k :: seen) ((g.parentKeys k).reverse ++ rest)
termination_by toVisit => g.unseenEdges seen + toVisit.length
decreasing_by
  · simp
  · have := g.length_edgesFrom_add_unseenEdges_le ‹k ∉ seen›
    simp only [parentKeys, List.length_append, List.length_reverse, List.length_map,
      List.length_cons]
    omega

/-- Whether a path of edges, possibly empty, leads from one type to another. -/
def reaches (g : Graph) (source target : String) : Bool :=
  g.reachesFrom (Name.key target) [] [Name.key source]

/-- Adds an edge without looking at the others. -/
def push (g : Graph) (e : Edge) : Graph where
  edges := g.edges.push e
  outgoing :=
    let k := Name.key e.child
    g.outgoing.insert k ((g.outgoing.find? k).getD [] ++ [g.edges.size])

/-- The graph of a list of edges that are taken as they are. -/
def ofEdges (edges : List Edge) : Graph :=
  edges.foldl push ∅

/-- Adds an edge from `child` to `parent`, and tells whether it was accepted. An edge that is there
already is not added again; one that would close a cycle is refused. It is irreducible so that no
proof searches the graph when it only looks at what stays the same. -/
@[irreducible]
def insert (g : Graph) (child parent : String) (relation : Relation) (origin : Option FileId) :
    Except EdgeError Unit × Graph :=
  let child := Name.relative child
  let parent := Name.relative parent
  if Name.same child parent then
    (.error (.selfReference child relation), g)
  else if g.reaches parent child then
    (.error (.cycle child parent relation), g)
  else if (g.edgesFrom (Name.key child)).any
      fun e => e.relation = relation && Name.same e.parent parent then
    (.ok (), g)
  else
    (.ok (), g.push { child := child, parent := parent, relation := relation, origin := origin })

/-- The direct supertypes of `name` in the order of member lookup: traits, then what it extends,
then interfaces. -/
def supertypes (g : Graph) (name : String) : List Edge :=
  let edges := g.edgesFrom (Name.key name)
  edges.filter (·.relation = .mixingIn) ++
    (edges.filter (·.relation = .extending) ++ edges.filter (·.relation = .implementing))

theorem length_filter_relations (edges : List Edge) :
    (edges.filter (·.relation = .mixingIn) ++
      (edges.filter (·.relation = .extending) ++
        edges.filter (·.relation = .implementing))).length = edges.length := by
  induction edges with
  | nil => rfl
  | cons e rest ih =>
    simp only [List.length_append] at ih ⊢
    cases h : e.relation <;> simp [h] <;> omega

theorem length_supertypes (g : Graph) (name : String) :
    (g.supertypes name).length = (g.edgesFrom (Name.key name)).length :=
  length_filter_relations _

end Graph
end CrossReference
