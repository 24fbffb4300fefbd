import CrossReference.Proofs.Catalog.Ancestry
import CrossReference.Proofs.Catalog.Ownership
import CrossReference.Proofs.Hierarchy.Acyclic
import Mathlib.Data.List.Perm.Subperm
import Mathlib.Data.Set.Card

/-!
# Lookup along the ancestors is recursive lookup

A member is looked up in the list of the ancestors of a type, where each type stands once. The rule
of the language is recursive: what a type has itself comes first, and then what its direct
supertypes have, one after the other. A type that the list passes over because it was met before
could not have given the member, as it was asked before and had none. So the two agree, as long as
the list is not cut off.

* `Catalog.met` lists the types that a climb meets, without a limit, and
  `Catalog.climb_eq_metTypes` reads the chain of the climb off it.
* `Catalog.truncated_parent` says that the supertypes of a type are not cut off if the type is not.
* `Catalog.IsLookup` states the recursive rule. A graph without cycles has a function that obeys it.
* `Catalog.findSome?_met` is the induction on the climb.
* `Catalog.findMember?_eq` draws the conclusion for members.
-/

namespace CrossReference

namespace Graph

theorem mem_supertypes_iff {g : Graph} {name : String} {e : Edge} :
    e ∈ g.supertypes name ↔ e ∈ g.edgesFrom (Name.key name) := by
  simp only [supertypes, List.mem_append, List.mem_filter]
  cases e.relation <;> simp

theorem unseenEdges_append_le (g : Graph) (more seen : List String) :
    g.unseenEdges (more ++ seen) ≤ g.unseenEdges seen := by
  induction more with
  | nil => exact Nat.le_refl _
  | cons k more ih => exact Nat.le_trans (g.unseenEdges_cons_le (more ++ seen) k) ih

/-- The edges that can be followed from the type with key `k`, at once or later. -/
def edgesAbove (g : Graph) (k : String) : Set Edge :=
  { e | e ∈ g.edges ∧ Relation.ReflTransGen g.Leads k (Name.key e.child) }

theorem finite_edgesAbove (g : Graph) (k : String) : (g.edgesAbove k).Finite := by
  refine g.edges.toList.finite_toSet.subset ?_
  intro e he
  exact Array.mem_toList_iff.2 he.1

/-- The way up from a type comes to an end. Each edge that is followed cannot be followed again. -/
theorem WellFormed.wellFounded {g : Graph} (hg : g.WellFormed) :
    WellFounded fun b a => g.Leads a b := by
  refine Subrelation.wf ?_ (measure fun k => (g.edgesAbove k).ncard).wf
  rintro b a ⟨e, he, rfl, rfl⟩
  have hlead : g.Leads (Name.key e.child) (Name.key e.parent) := ⟨e, he, rfl, rfl⟩
  refine Set.ncard_lt_ncard ⟨?_, ?_⟩ (g.finite_edgesAbove _)
  · rintro e' ⟨he', hpath⟩
    exact ⟨he', .head hlead hpath⟩
  · intro hsub
    have hback := (hsub ⟨he, .refl⟩ : e ∈ g.edgesAbove (Name.key e.parent)).2
    exact hg.acyclic _ (.head' hlead hback)

end Graph

/-- A function of type names that does not tell names with the same key apart. -/
def Keyed {α : Type} (f : String → α) : Prop :=
  ∀ a b, Name.key a = Name.key b → f a = f b

namespace Catalog

variable {c : Catalog}

/-- The names of the direct supertypes of a type, in the order of member lookup. -/
def parentNames (c : Catalog) (name : String) : List String :=
  (c.graph.supertypes name).map Edge.parent

theorem keyed_parentNames (c : Catalog) : Keyed c.parentNames := by
  intro a b h
  unfold parentNames Graph.supertypes
  rw [h]

theorem parentNames_eq (hc : c.graph.Indexed) (name : String) :
    c.parentNames name = (c.graph.edgesUp name).map Edge.parent := by
  rw [parentNames, hc.supertypes_eq]

theorem map_name_parentsAt (c : Catalog) (name : String) (depth : Nat) :
    (c.parentsAt name depth).map Ancestor.name = c.parentNames name := by
  unfold parentsAt parentNames
  rw [List.map_map]
  rfl

theorem length_parentNames (c : Catalog) (name : String) :
    (c.parentNames name).length = (c.graph.edgesFrom (Name.key name)).length := by
  rw [parentNames, List.length_map, Graph.length_supertypes]

theorem leads_of_mem_parentNames (hc : c.graph.WellFormed) {name parent : String}
    (h : parent ∈ c.parentNames name) : c.graph.Leads (Name.key name) (Name.key parent) := by
  obtain ⟨e, he, rfl⟩ := List.mem_map.1 h
  obtain ⟨hmem, hchild⟩ := hc.indexed.mem_edgesFrom_iff.1 (Graph.mem_supertypes_iff.1 he)
  exact ⟨e, hmem, hchild, rfl⟩

theorem keyed_lookup? (c : Catalog) {kind : SymbolKind} (hkind : kind.ignoresCase = true) :
    Keyed (c.lookup? kind) := by
  intro a b h
  unfold lookup? SymbolKey.ofName SymbolKey.fold
  rw [if_pos hkind, if_pos hkind, h]

theorem keyed_lookupType? (c : Catalog) : Keyed c.lookupType? := by
  intro a b h
  have hkind : ∀ kind : Tree.ClassKind, c.lookup? (.type kind) a = c.lookup? (.type kind) b :=
    fun kind => c.keyed_lookup? rfl a b h
  unfold lookupType?
  simp only [hkind]

theorem keyed_hasType (c : Catalog) : Keyed c.hasType := by
  intro a b h
  unfold hasType
  rw [c.keyed_lookupType? a b h]

theorem keyed_ancestors (c : Catalog) : Keyed c.ancestors := by
  intro a b h
  unfold ancestors parentsAt Graph.supertypes
  rw [h]

/-- A symbol that is found has the kind that was asked for, and a name with the key of the name that
was. -/
theorem Owned.fold_eq_of_lookup? (hc : c.Owned) {kind : SymbolKind} {name : String} {s : Symbol}
    (h : c.lookup? kind name = some s) :
    s.kind = kind ∧ SymbolKey.fold kind s.qualifiedName = SymbolKey.fold kind name := by
  obtain ⟨hkind, hfold⟩ := SymbolKey.mk.inj (hc.key_eq _ _ h)
  rw [hkind] at hfold
  exact ⟨hkind, hfold⟩

/-- The name under which a type is declared. -/
def declaredName (c : Catalog) (name : String) : String :=
  ((c.lookupType? name).map Symbol.qualifiedName).getD name

theorem key_declaredName (hc : c.Owned) (name : String) :
    Name.key (c.declaredName name) = Name.key name := by
  unfold declaredName
  cases h : c.lookupType? name with
  | none => rfl
  | some s =>
      obtain ⟨kind, hs⟩ := exists_lookup?_of_lookupType? h
      exact (hc.fold_eq_of_lookup? hs).2

/-! ## What a climb meets -/

/-- The types that a climb meets for the first time, in order, where the keys `seen` were met
before. -/
def met (c : Catalog) (seen : List String) : List String → List String
  | [] => []
  | name :: rest =>
    if Name.key name ∈ seen then
      c.met seen rest
    else if c.hasType name then
      name :: c.met (Name.key name :: seen) (c.parentNames name ++ rest)
    else
      name :: c.met (Name.key name :: seen) rest
termination_by toVisit => c.graph.unseenEdges seen + toVisit.length
decreasing_by
  · simp
  · have := c.graph.length_edgesFrom_add_unseenEdges_le ‹Name.key name ∉ seen›
    simp only [List.length_append, List.length_cons, length_parentNames]
    omega
  · have := c.graph.unseenEdges_cons_le seen (Name.key name)
    simp only [List.length_cons]
    omega

/-- The declared types that a climb meets. -/
def metTypes (c : Catalog) (seen toVisit : List String) : List String :=
  (c.met seen toVisit).filter c.hasType

/-- A climb lists the declared types that it meets, as far as there is room. -/
theorem climb_eq_metTypes (c : Catalog) (seen : List String) (room : Nat)
    (toVisit : List Ancestor) :
    let types := c.metTypes seen (toVisit.map Ancestor.name)
    (c.climb seen room toVisit).chain.map Ancestor.name = (types.take room).map c.declaredName ∧
      ((c.climb seen room toVisit).truncated = true ↔ room < types.length) := by
  fun_induction climb c seen room toVisit with
  | case1 seen room => simp [metTypes, met]
  | case2 seen room next rest hseen ih =>
      simpa only [metTypes, List.map_cons, met, if_pos hseen] using ih
  | case3 seen room next rest hseen hnone others ih =>
      have htype : c.hasType next.name = false := by simp [hasType, hnone]
      simpa [metTypes, met, hseen, htype, others] using ih
  | case4 seen next rest hseen s hs =>
      have htype : c.hasType next.name = true := by simp [hasType, hs]
      simp [metTypes, met, hseen, htype]
  | case5 seen next rest hseen s hs room others ih =>
      have htype : c.hasType next.name = true := by simp [hasType, hs]
      have hname : c.declaredName next.name = s.qualifiedName := by simp [declaredName, hs]
      simpa [metTypes, met, hseen, htype, hname, others, map_name_parentsAt] using ih

/-- What is to visit later is visited when all before has been met. -/
theorem met_append (c : Catalog) (seen xs ys : List String) :
    c.met seen (xs ++ ys) =
      c.met seen xs ++ c.met (((c.met seen xs).map Name.key).reverse ++ seen) ys := by
  fun_induction met c seen xs with
  | case1 seen => rfl
  | case2 seen name rest hseen ih =>
      rw [List.cons_append, met, if_pos hseen, ih]
  | case3 seen name rest hseen htype ih =>
      rw [List.cons_append, met, if_neg hseen, if_pos htype, ← List.append_assoc, ih]
      simp
  | case4 seen name rest hseen htype ih =>
      rw [List.cons_append, met, if_neg hseen, if_neg htype, ih]
      simp

/-- All that is above a declared type is met before what comes after it. -/
theorem met_cons_of_hasType {seen : List String} {name : String} (hseen : Name.key name ∉ seen)
    (htype : c.hasType name = true) (rest : List String) :
    c.met seen (name :: rest) =
      let higher := c.met (Name.key name :: seen) (c.parentNames name)
      name :: (higher ++ c.met ((higher.map Name.key).reverse ++ Name.key name :: seen) rest) := by
  rw [met, if_neg hseen, if_pos htype, met_append]

/-- What holds of the types to visit and is passed on from declared types to their supertypes holds
of all that is met. -/
theorem met_induction {P : String → Prop} {seen toVisit : List String}
    (hstart : ∀ name ∈ toVisit, P name)
    (hstep : ∀ name, c.hasType name = true → P name → ∀ parent ∈ c.parentNames name, P parent) :
    ∀ name ∈ c.met seen toVisit, P name := by
  fun_induction met c seen toVisit with
  | case1 seen => simp
  | case2 seen name rest hseen ih =>
      exact ih (fun x hx => hstart x (List.mem_cons_of_mem name hx))
  | case3 seen name rest hseen htype ih =>
      have hname : P name := hstart name List.mem_cons_self
      rw [List.forall_mem_cons]
      refine ⟨hname, ih ?_⟩
      intro x hx
      rcases List.mem_append.1 hx with hparent | hrest
      · exact hstep name htype hname x hparent
      · exact hstart x (List.mem_cons_of_mem name hrest)
  | case4 seen name rest hseen htype ih =>
      rw [List.forall_mem_cons]
      exact ⟨hstart name List.mem_cons_self,
        ih (fun x hx => hstart x (List.mem_cons_of_mem name hx))⟩

/-- Each type is met once, and none of those that were met before. -/
theorem nodup_met (c : Catalog) (seen toVisit : List String) :
    ((c.met seen toVisit).map Name.key).Nodup ∧
      ∀ k ∈ (c.met seen toVisit).map Name.key, k ∉ seen := by
  fun_induction met c seen toVisit with
  | case1 seen => simp
  | case2 seen name rest hseen ih => exact ih
  | case3 seen name rest hseen htype ih =>
      obtain ⟨hnodup, hnew⟩ := ih
      rw [List.map_cons, List.nodup_cons, List.forall_mem_cons]
      exact ⟨⟨fun hmem => hnew _ hmem List.mem_cons_self, hnodup⟩, hseen,
        fun k hk hold => hnew k hk (List.mem_cons_of_mem _ hold)⟩
  | case4 seen name rest hseen htype ih =>
      obtain ⟨hnodup, hnew⟩ := ih
      rw [List.map_cons, List.nodup_cons, List.forall_mem_cons]
      exact ⟨⟨fun hmem => hnew _ hmem List.mem_cons_self, hnodup⟩, hseen,
        fun k hk hold => hnew k hk (List.mem_cons_of_mem _ hold)⟩

/-- A type that is met now counts as met before from here on. -/
theorem mem_met_cons_iff {seen : List String} {k name : String} {names : List String} :
    k ∈ Name.key name :: seen ++ names.map Name.key ↔
      k ∈ seen ++ (name :: names).map Name.key := by
  simp only [List.cons_append, List.map_cons, List.mem_cons, List.mem_append]
  exact or_left_comm

/-- Nothing is left out: the types to visit and the supertypes of each declared type that is met
were met before or are met. -/
theorem met_closed (c : Catalog) (seen toVisit : List String) :
    (∀ name ∈ toVisit, Name.key name ∈ seen ++ (c.met seen toVisit).map Name.key) ∧
      ∀ name ∈ c.met seen toVisit, c.hasType name = true → ∀ parent ∈ c.parentNames name,
        Name.key parent ∈ seen ++ (c.met seen toVisit).map Name.key := by
  fun_induction met c seen toVisit with
  | case1 seen => simp
  | case2 seen name rest hseen ih =>
      obtain ⟨hrest, hclosed⟩ := ih
      rw [List.forall_mem_cons]
      exact ⟨⟨List.mem_append_left _ hseen, hrest⟩, hclosed⟩
  | case3 seen name rest hseen htype ih =>
      simp only [mem_met_cons_iff, List.forall_mem_append] at ih
      obtain ⟨⟨hparents, hrest⟩, hclosed⟩ := ih
      rw [List.forall_mem_cons, List.forall_mem_cons]
      exact ⟨⟨by simp, hrest⟩, fun _ => hparents, hclosed⟩
  | case4 seen name rest hseen htype ih =>
      simp only [mem_met_cons_iff] at ih
      obtain ⟨hrest, hclosed⟩ := ih
      rw [List.forall_mem_cons, List.forall_mem_cons]
      exact ⟨⟨by simp, hrest⟩, fun htype' => absurd htype' htype, hclosed⟩

/-- What is met can be reached from what was to visit. -/
theorem path_of_mem_met (hc : c.graph.WellFormed) {seen toVisit : List String} {name : String}
    (h : name ∈ c.met seen toVisit) :
    ∃ start ∈ toVisit, Relation.ReflTransGen c.graph.Leads (Name.key start) (Name.key name) := by
  refine met_induction (P := fun n => ∃ start ∈ toVisit,
    Relation.ReflTransGen c.graph.Leads (Name.key start) (Name.key n)) ?_ ?_ name h
  · intro start hstart
    exact ⟨start, hstart, .refl⟩
  · rintro n _ ⟨start, hstart, hpath⟩ parent hparent
    exact ⟨start, hstart, hpath.tail (leads_of_mem_parentNames hc hparent)⟩

/-! ## Supertypes of a type whose ancestors are all listed -/

/-- The types above a type. -/
def above (c : Catalog) (name : String) : List String :=
  c.met [Name.key name] (c.parentNames name)

/-- The declared types above a type. -/
def typesAbove (c : Catalog) (name : String) : List String :=
  (c.above name).filter c.hasType

/-- No type is above itself. -/
theorem ne_of_path (hc : c.graph.WellFormed) {name parent : String} {k : String}
    (hparent : parent ∈ c.parentNames name)
    (hpath : Relation.ReflTransGen c.graph.Leads (Name.key parent) k) : k ≠ Name.key name := by
  rintro rfl
  exact hc.acyclic _ (.head' (leads_of_mem_parentNames hc hparent) hpath)

/-- Above a type are its direct supertypes and with each declared type the direct supertypes of
that. -/
theorem key_mem_above (hc : c.graph.WellFormed) (name : String) :
    (∀ parent ∈ c.parentNames name, Name.key parent ∈ (c.above name).map Name.key) ∧
      ∀ n ∈ c.above name, c.hasType n = true → ∀ parent ∈ c.parentNames n,
        Name.key parent ∈ (c.above name).map Name.key := by
  obtain ⟨hparents, hclosed⟩ := c.met_closed [Name.key name] (c.parentNames name)
  refine ⟨?_, ?_⟩
  · intro parent hparent
    exact (List.mem_append.1 (hparents parent hparent)).resolve_left fun h =>
      ne_of_path hc hparent .refl (List.mem_singleton.1 h)
  · intro n hn htype parent hparent
    obtain ⟨start, hstart, hpath⟩ := path_of_mem_met hc hn
    exact (List.mem_append.1 (hclosed n hn htype parent hparent)).resolve_left fun h =>
      ne_of_path hc hstart (hpath.tail (leads_of_mem_parentNames hc hparent))
        (List.mem_singleton.1 h)

/-- What is above a declared direct supertype is above the type. -/
theorem above_subset (hc : c.graph.WellFormed) {name parent : String}
    (hparent : parent ∈ c.parentNames name) (htype : c.hasType parent = true) :
    (c.above parent).map Name.key ⊆ (c.above name).map Name.key := by
  obtain ⟨hfirst, hclosed⟩ := key_mem_above hc name
  -- Which types are above depends on the keys of the names only.
  have hstep : ∀ n, c.hasType n = true → Name.key n ∈ (c.above name).map Name.key →
      ∀ p ∈ c.parentNames n, Name.key p ∈ (c.above name).map Name.key := by
    intro n hn hmem p hp
    obtain ⟨n', hn', hkey⟩ := List.mem_map.1 hmem
    rw [← c.keyed_hasType _ _ hkey] at hn
    rw [← c.keyed_parentNames _ _ hkey] at hp
    exact hclosed n' hn' hn p hp
  intro k hk
  obtain ⟨n, hn, rfl⟩ := List.mem_map.1 hk
  exact met_induction (P := fun n => Name.key n ∈ (c.above name).map Name.key)
    (hstep parent htype (hfirst parent hparent)) hstep n hn

theorem truncated_ancestors_iff (c : Catalog) (name : String) :
    (c.ancestors name).truncated = true ↔
      c.ancestorLimit < (c.typesAbove name).length := by
  have hclimb := (c.climb_eq_metTypes [Name.key name] c.ancestorLimit (c.parentsAt name 0)).2
  rw [map_name_parentsAt] at hclimb
  exact hclimb

/-- If the ancestors of a type are all listed, so are those of its declared direct supertypes. -/
theorem truncated_parent (hc : c.graph.WellFormed) {name parent : String}
    (h : (c.ancestors name).truncated = false) (hparent : parent ∈ c.parentNames name)
    (htype : c.hasType parent = true) : (c.ancestors parent).truncated = false := by
  have hkeys : (c.typesAbove parent).map Name.key ⊆
      (c.typesAbove name).map Name.key := by
    intro k hk
    obtain ⟨n, hn, rfl⟩ := List.mem_map.1 hk
    obtain ⟨hmem, hn⟩ := List.mem_filter.1 hn
    obtain ⟨n', hn', hkey⟩ := List.mem_map.1
      (above_subset hc hparent htype (List.mem_map_of_mem hmem))
    rw [← c.keyed_hasType _ _ hkey] at hn
    exact hkey ▸ List.mem_map_of_mem (List.mem_filter.2 ⟨hn', hn⟩)
  have hnodup : ((c.typesAbove parent).map Name.key).Nodup :=
    (c.nodup_met _ _).1.sublist (List.filter_sublist.map _)
  have hle := (List.subperm_of_subset hnodup hkeys).length_le
  rw [List.length_map, List.length_map] at hle
  rw [← Bool.not_eq_true, truncated_ancestors_iff] at h ⊢
  omega

/-! ## The recursive rule -/

/-- The function `look` gives what a declared type has itself, else what it gives for the first
direct supertype for which it gives anything. -/
def IsLookup {α : Type} (c : Catalog) (own look : String → Option α) : Prop :=
  ∀ name, look name =
    if c.hasType name then (own name).or ((c.parentNames name).findSome? look) else none

theorem exists_isLookup {α : Type} (hc : c.graph.WellFormed) (own : String → Option α) :
    ∃ look, c.IsLookup own look := by
  have hwf : WellFounded fun b a => c.graph.Leads (Name.key a) (Name.key b) :=
    InvImage.wf Name.key hc.wellFounded
  refine ⟨hwf.fix fun name above =>
    if c.hasType name then
      (own name).or ((c.parentNames name).attach.findSome? fun parent =>
        above parent.1 (leads_of_mem_parentNames hc parent.2))
    else none, ?_⟩
  intro name
  rw [hwf.fix_eq]
  simp only [List.findSome?_subtype, List.unattach_attach]

section Recursive

variable {α : Type} {own look : String → Option α}

theorem IsLookup.keyed (hlook : c.IsLookup own look) (hown : Keyed own) : Keyed look := by
  intro a b h
  rw [hlook a, hlook b, c.keyed_hasType a b h, hown a b h, c.keyed_parentNames a b h]

theorem IsLookup.of_not_hasType (hlook : c.IsLookup own look) {name : String}
    (h : c.hasType name ≠ true) : look name = none := by
  rw [hlook name, if_neg h]

/-- Nothing is found at types that were met before, as far as they can be reached again. -/
def Barren (c : Catalog) (look : String → Option α) (seen toVisit : List String) : Prop :=
  ∀ name, Name.key name ∈ seen →
    (∃ start ∈ toVisit, Relation.ReflTransGen c.graph.Leads (Name.key start) (Name.key name)) →
      look name = none

theorem Barren.tail {seen rest : List String} {name : String}
    (h : c.Barren look seen (name :: rest)) : c.Barren look seen rest := by
  rintro n hn ⟨start, hstart, hpath⟩
  exact h n hn ⟨start, List.mem_cons_of_mem name hstart, hpath⟩

/-- If nothing is found at a type, nor at the types `higher`, then these count as met. -/
theorem Barren.after (hkeyed : Keyed look) {seen rest higher : List String} {name : String}
    (h : c.Barren look seen (name :: rest)) (hname : look name = none)
    (hhigher : ∀ n ∈ higher, look n = none) :
    c.Barren look ((higher.map Name.key).reverse ++ Name.key name :: seen) rest := by
  intro n hn hpath
  rw [List.mem_append, List.mem_reverse, List.mem_cons] at hn
  rcases hn with hn | hn | hn
  · obtain ⟨n', hn', hkey⟩ := List.mem_map.1 hn
    rw [← hkeyed _ _ hkey, hhigher n' hn']
  · rw [hkeyed _ _ hn, hname]
  · exact h.tail n hn hpath

/-- Before the supertypes of a type are visited, the type itself counts as met. It is not above
itself, whatever is found there. -/
theorem Barren.parents (hc : c.graph.WellFormed) {seen rest : List String} {name : String}
    (h : c.Barren look seen (name :: rest)) :
    c.Barren look (Name.key name :: seen) (c.parentNames name) := by
  rintro n hn ⟨parent, hparent, hpath⟩
  rcases List.mem_cons.1 hn with heq | hn
  · exact absurd heq (ne_of_path hc hparent hpath)
  · exact h n hn
      ⟨name, List.mem_cons_self, .head (leads_of_mem_parentNames hc hparent) hpath⟩

theorem findSome?_cons_eq_or {β : Type} (f : β → Option α) (x : β) (xs : List β) :
    (x :: xs).findSome? f = (f x).or (xs.findSome? f) := by
  rw [List.findSome?_cons]
  cases f x <;> rfl

/-- What a declared type has itself comes first, then what is above it, then the rest. -/
theorem findSome?_metTypes_cons {seen : List String} {name : String}
    (hseen : Name.key name ∉ seen) (htype : c.hasType name = true) (rest : List String)
    (own : String → Option α) :
    let higher := c.met (Name.key name :: seen) (c.parentNames name)
    (c.metTypes seen (name :: rest)).findSome? own =
      ((own name).or
        ((c.metTypes (Name.key name :: seen) (c.parentNames name)).findSome? own)).or
          ((c.metTypes ((higher.map Name.key).reverse ++ Name.key name :: seen) rest).findSome?
            own) := by
  intro higher
  rw [metTypes, met_cons_of_hasType hseen htype, List.filter_cons_of_pos htype,
    List.filter_append, findSome?_cons_eq_or, List.findSome?_append, ← Option.or_assoc]
  rfl

/-- The first declared type that has something gives what the recursive rule gives. If nothing is
found, then the rule gives nothing at any type that was met, so that it may be passed over later. -/
theorem findSome?_met (hc : c.graph.WellFormed) (hown : Keyed own) (hlook : c.IsLookup own look)
    {seen toVisit : List String} (hbarren : c.Barren look seen toVisit) :
    (c.metTypes seen toVisit).findSome? own = toVisit.findSome? look ∧
      (toVisit.findSome? look = none → ∀ name ∈ c.met seen toVisit, look name = none) := by
  -- The induction is on what the climb may still come across, since the types above `name` and the
  -- rest are two climbs here.
  induction hsize : c.graph.unseenEdges seen + toVisit.length using Nat.strong_induction_on
    generalizing seen toVisit with
  | _ size ih =>
  subst hsize
  cases toVisit with
  | nil => simp [metTypes, met]
  | cons name rest =>
      rw [findSome?_cons_eq_or]
      by_cases hseen : Name.key name ∈ seen
      · have hname : look name = none := hbarren name hseen ⟨name, List.mem_cons_self, .refl⟩
        rw [metTypes, met, if_pos hseen, hname, Option.none_or]
        exact ih _ (by simp) hbarren.tail rfl
      by_cases htype : c.hasType name = true
      · have habove : c.graph.unseenEdges (Name.key name :: seen) + (c.parentNames name).length <
            c.graph.unseenEdges seen + (name :: rest).length := by
          have hedges := c.graph.length_edgesFrom_add_unseenEdges_le hseen
          rw [length_parentNames, List.length_cons]
          omega
        obtain ⟨hparents, hnone⟩ := ih _ habove (hbarren.parents hc) rfl
        have hname : look name = (own name).or
            ((c.metTypes (Name.key name :: seen) (c.parentNames name)).findSome? own) := by
          rw [hlook name, if_pos htype, hparents]
        rw [findSome?_metTypes_cons hseen htype, ← hname]
        cases hfound : look name with
        | some found => exact ⟨rfl, fun h => absurd h (by simp)⟩
        | none =>
            have hhigher := hnone
              (hparents ▸ (Option.or_eq_none_iff.1 (hname.symm.trans hfound)).2)
            have hrest : c.graph.unseenEdges (((c.met (Name.key name :: seen)
                (c.parentNames name)).map Name.key).reverse ++ Name.key name :: seen) +
                  rest.length < c.graph.unseenEdges seen + (name :: rest).length := by
              have hmore := c.graph.unseenEdges_append_le ((c.met (Name.key name :: seen)
                (c.parentNames name)).map Name.key).reverse (Name.key name :: seen)
              have hcons := c.graph.unseenEdges_cons_le seen (Name.key name)
              rw [List.length_cons]
              omega
            obtain ⟨heq, hnone'⟩ := ih _ hrest
              (hbarren.after (hlook.keyed hown) hfound hhigher) rfl
            refine ⟨heq, ?_⟩
            intro h
            rw [met_cons_of_hasType hseen htype, List.forall_mem_cons, List.forall_mem_append]
            exact ⟨hfound, hhigher, hnone' h⟩
      · have hname : look name = none := hlook.of_not_hasType htype
        have hrest : c.graph.unseenEdges (Name.key name :: seen) + rest.length <
            c.graph.unseenEdges seen + (name :: rest).length := by
          have hcons := c.graph.unseenEdges_cons_le seen (Name.key name)
          rw [List.length_cons]
          omega
        have hbarren' : c.Barren look (Name.key name :: seen) rest :=
          hbarren.after (hlook.keyed hown) hname (List.forall_mem_nil _)
        obtain ⟨heq, hnone⟩ := ih _ hrest hbarren' rfl
        rw [metTypes, met, if_neg hseen, if_neg htype, List.filter_cons_of_neg htype, hname,
          Option.none_or]
        refine ⟨heq, ?_⟩
        intro h
        rw [List.forall_mem_cons]
        exact ⟨hname, hnone h⟩

theorem findSome?_typesAbove (hc : c.graph.WellFormed) (hown : Keyed own)
    (hlook : c.IsLookup own look) (name : String) :
    (c.typesAbove name).findSome? own = (c.parentNames name).findSome? look := by
  refine (findSome?_met hc hown hlook ?_).1
  rintro n hn ⟨parent, hparent, hpath⟩
  exact absurd (List.mem_singleton.1 hn) (ne_of_path hc hparent hpath)

/-- The chain of ancestors holds the declared types above a type, unless it is cut off. -/
theorem findSome?_chain (hc : c.Owned) (hown : Keyed own) {name : String}
    (h : (c.ancestors name).truncated = false) :
    (c.ancestors name).chain.findSome? (fun a => own a.name) =
      (c.typesAbove name).findSome? own := by
  have hchain := (c.climb_eq_metTypes [Name.key name] c.ancestorLimit (c.parentsAt name 0)).1
  rw [map_name_parentsAt] at hchain
  change (c.ancestors name).chain.map Ancestor.name =
    ((c.typesAbove name).take c.ancestorLimit).map c.declaredName at hchain
  rw [← Bool.not_eq_true, truncated_ancestors_iff, Nat.not_lt] at h
  have hdeclared : own ∘ c.declaredName = own := by
    funext n
    exact hown _ _ (key_declaredName hc n)
  calc (c.ancestors name).chain.findSome? (fun a => own a.name)
      = ((c.ancestors name).chain.map Ancestor.name).findSome? own := by
        rw [List.findSome?_map]
        rfl
    _ = (c.typesAbove name).findSome? own := by
        rw [hchain, List.findSome?_map, hdeclared, List.take_of_length_le h]

/-- The first ancestor that has something gives what the recursive rule gives for the direct
supertypes. -/
theorem IsLookup.findSome?_chain (hlook : c.IsLookup own look) (howned : c.Owned)
    (hc : c.graph.WellFormed) (hown : Keyed own) {name : String}
    (h : (c.ancestors name).truncated = false) :
    (c.ancestors name).chain.findSome? (fun a => own a.name) =
      (c.parentNames name).findSome? look := by
  rw [Catalog.findSome?_chain howned hown h, findSome?_typesAbove hc hown hlook]

end Recursive

/-! ## Members -/

/-- The key of a member depends on the key of its owner only. The last mark stands before the member
or in it, so the case of all that the owner contributes is folded. -/
theorem fold_member_congr (kind : SymbolKind) (member : String) {a b : String}
    (h : Name.key a = Name.key b) :
    SymbolKey.fold kind (Name.member a member) = SymbolKey.fold kind (Name.member b member) := by
  cases hkind : kind.ignoresCase with
  | true => simp only [SymbolKey.fold, hkind, if_true, Name.key_member, h]
  | false =>
      obtain ⟨⟨before, after⟩, hcut⟩ :=
        Text.exists_cutLast? (show Name.memberMark.toList ≠ [] by decide) member.toList
      have hsplit : ∀ owner, Text.splitLast? Name.memberMark (Name.member owner member) =
          some (owner ++ String.ofList before, String.ofList after) := by
        intro owner
        unfold Text.splitLast?
        rw [Name.toList_member, List.append_assoc, Text.cutLast?_append_of_some hcut]
        simp
      have hfold : ∀ owner, SymbolKey.fold kind (Name.member owner member) =
          Name.member (Name.key owner ++ Text.foldCase (String.ofList before))
            (String.ofList after) := by
        intro owner
        simp only [SymbolKey.fold, hkind, Bool.false_eq_true, if_false, Name.relative_member,
          hsplit]
        rw [Text.foldCase_append]
        rfl
      rw [hfold, hfold, h]

theorem keyed_lookup?_member (c : Catalog) (kind : SymbolKind) (member : String) :
    Keyed fun owner => c.lookup? kind (Name.member owner member) := by
  intro a b h
  have hfold := fold_member_congr kind member h
  exact congrArg (fun folded => c.symbols.find? ⟨kind, folded⟩) hfold

theorem findMember?_eq_or (c : Catalog) (name member : String) (kind : SymbolKind) :
    c.findMember? name member kind = (c.lookup? kind (Name.member name member)).or
      ((c.ancestors name).chain.findSome? fun a => c.lookup? kind (Name.member a.name member)) := by
  unfold findMember?
  cases c.lookup? kind (Name.member name member) <;> rfl

/-- A member is found by the recursive rule: it is the type's own, else the one that is found from
the first declared direct supertype from which one is found. -/
theorem findMember?_eq (howned : c.Owned) (hc : c.graph.WellFormed) {name : String}
    (member : String) (kind : SymbolKind) (h : (c.ancestors name).truncated = false) :
    c.findMember? name member kind =
      (c.lookup? kind (Name.member name member)).or
        ((c.parentNames name).findSome? fun parent =>
          if c.hasType parent then c.findMember? parent member kind else none) := by
  have hown := c.keyed_lookup?_member kind member
  obtain ⟨look, hlook⟩ := exists_isLookup hc fun owner =>
    c.lookup? kind (Name.member owner member)
  have hfind : ∀ n, (c.ancestors n).truncated = false → c.findMember? n member kind =
      (c.lookup? kind (Name.member n member)).or ((c.parentNames n).findSome? look) := by
    intro n hn
    rw [findMember?_eq_or, hlook.findSome?_chain howned hc hown hn]
  rw [hfind name h, ← List.head?_filterMap, ← List.head?_filterMap]
  congr 2
  refine List.filterMap_congr ?_
  intro parent hparent
  rw [hlook parent]
  split
  · rename_i htype
    exact (hfind parent (truncated_parent hc h hparent htype)).symm
  · rfl

end Catalog
end CrossReference
