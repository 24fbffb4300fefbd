import CrossReference.Proofs.Catalog.Traversal

/-!
# The depth of an ancestor

A climb goes all the way up from one direct supertype before it turns to the next, so it need not
come to a type on the shortest way. It comes to it on the first one, where of two ways up that part
at some type the one that takes the earlier edge there is first. The depth of an ancestor is the
length of that way. A direct supertype has depth one unless an earlier one leads to it as well.

* `Catalog.Route` is a way up through declared types, and `Catalog.Precedes` the order of two ways.
* `Catalog.Clear` is the invariant of the walk: no way to a type that is still to be met goes
  through one that was met before.
* `Catalog.firstRoute_of_mem_tour` is the induction over the walk.
* `Catalog.length_eq_one_iff` says which direct supertypes are met by one edge.
* `Catalog.depth_is_length_of_first_route` puts them together for every catalog.
-/

namespace CrossReference

namespace Graph

theorem mem_edgesUp_iff {g : Graph} {name : String} {e : Edge} :
    e ∈ g.edgesUp name ↔ e ∈ g.edges ∧ Name.key e.child = Name.key name := by
  rw [edgesUp_eq]
  cases hrelation : e.relation <;> simp [hrelation]

theorem edgesUp_congr (g : Graph) {a b : String} (h : Name.key a = Name.key b) :
    g.edgesUp a = g.edgesUp b := by
  rw [edgesUp_eq, edgesUp_eq, h]

theorem WellFormed.nodup_edgesUp {g : Graph} (hg : g.WellFormed) (name : String) :
    (g.edgesUp name).Nodup := by
  have hedges := (hg.distinct.of_map Edge.identity).filter (Name.key ·.child = Name.key name)
  rw [edgesUp_eq]
  refine (hedges.filter _).append ((hedges.filter _).append (hedges.filter _) ?_) ?_
  · intro e hextends himplements
    simp only [List.mem_filter, decide_eq_true_eq] at hextends himplements
    exact absurd (hextends.2.symm.trans himplements.2) (by simp)
  · intro e htrait hother
    simp only [List.mem_append, List.mem_filter, decide_eq_true_eq] at htrait hother
    rcases hother with h | h
    · exact absurd (htrait.2.symm.trans h.2) (by simp)
    · exact absurd (htrait.2.symm.trans h.2) (by simp)

end Graph

/-- In a list without repetitions, of two members only one comes first. -/
theorem not_pair_sublist_of_pair_sublist {α : Type} {l : List α} (hl : l.Nodup) {a b : α}
    (h : [a, b].Sublist l) : ¬ [b, a].Sublist l := by
  intro h'
  induction l with
  | nil => exact absurd h.length_le (by simp)
  | cons x l ih =>
      obtain ⟨hx, hl⟩ := List.nodup_cons.1 hl
      cases h with
      | cons _ h =>
          cases h' with
          | cons _ h' => exact ih hl h h'
          | cons_cons _ h' => exact hx (h.subset (List.mem_cons_of_mem a List.mem_cons_self))
      | cons_cons _ h =>
          cases h' with
          | cons _ h' => exact hx (h'.subset (List.mem_cons_of_mem b List.mem_cons_self))
          | cons_cons _ h' => exact hx (h.subset List.mem_cons_self)

/-- What comes before a member of the front is in the front. -/
theorem mem_left_of_pair_sublist {α : Type} {xs ys : List α} (hl : (xs ++ ys).Nodup) {a b : α}
    (h : [a, b].Sublist (xs ++ ys)) (hb : b ∈ xs) : a ∈ xs := by
  rcases List.mem_append.1 (h.subset List.mem_cons_self) with ha | ha
  · exact ha
  · have hpair : [b, a].Sublist (xs ++ ys) :=
      (List.singleton_sublist.2 hb).append (List.singleton_sublist.2 ha)
    exact absurd h (not_pair_sublist_of_pair_sublist hl hpair)

namespace Catalog

variable {c : Catalog} {edges rest : List Edge} {e : Edge} {route : List Edge} {k : String}

/-! ## Ways up -/

/-- A way up to the type with key `k` that begins with one of `edges`. All types on it are
declared. -/
inductive Route (c : Catalog) : List Edge → List Edge → String → Prop
  | direct {edges : List Edge} {e : Edge} {k : String} (he : e ∈ edges)
      (htype : c.hasType e.parent = true) (hkey : Name.key e.parent = k) : Route c edges [e] k
  | through {edges : List Edge} {e : Edge} {route : List Edge} {k : String} (he : e ∈ edges)
      (htype : c.hasType e.parent = true) (hroute : Route c (c.graph.edgesUp e.parent) route k) :
      Route c edges (e :: route) k

/-- Of two ways up that begin with one of `edges`, the first takes the earlier edge where they
part. -/
inductive Precedes (c : Catalog) : List Edge → List Edge → List Edge → Prop
  | here {edges : List Edge} {e e' : Edge} (route route' : List Edge) (h : [e, e'].Sublist edges) :
      Precedes c edges (e :: route) (e' :: route')
  | above {edges : List Edge} (e : Edge) {route route' : List Edge}
      (h : Precedes c (c.graph.edgesUp e.parent) route route') :
      Precedes c edges (e :: route) (e :: route')

/-- The way up to the type with key `k` that precedes all others. -/
def FirstRoute (c : Catalog) (edges route : List Edge) (k : String) : Prop :=
  c.Route edges route k ∧
    ∀ other, c.Route edges other k → other = route ∨ c.Precedes edges route other

theorem Route.mono {edges' : List Edge} (hedges : edges ⊆ edges') (h : c.Route edges route k) :
    c.Route edges' route k := by
  cases h with
  | direct he htype hkey => exact .direct (hedges he) htype hkey
  | through he htype hroute => exact .through (hedges he) htype hroute

theorem Precedes.mono {edges' route' : List Edge} (hedges : edges.Sublist edges')
    (h : c.Precedes edges route route') : c.Precedes edges' route route' := by
  cases h with
  | here route route' h => exact .here route route' (h.trans hedges)
  | above e h => exact .above e h

/-- A way up begins with the first edge or with one of the others. -/
theorem Route.of_cons (h : c.Route (e :: rest) route k) :
    (∃ higher, route = e :: higher ∧ c.hasType e.parent = true ∧
      (higher = [] ∧ Name.key e.parent = k ∨ c.Route (c.graph.edgesUp e.parent) higher k)) ∨
      c.Route rest route k := by
  cases h with
  | direct he htype hkey =>
      rcases List.mem_cons.1 he with rfl | he
      · exact .inl ⟨[], rfl, htype, .inl ⟨rfl, hkey⟩⟩
      · exact .inr (.direct he htype hkey)
  | through he htype hroute =>
      rcases List.mem_cons.1 he with rfl | he
      · exact .inl ⟨_, rfl, htype, .inr hroute⟩
      · exact .inr (.through he htype hroute)

theorem Route.exists_head (h : c.Route edges route k) :
    ∃ e higher, route = e :: higher ∧ e ∈ edges := by
  cases h with
  | direct he _ _ => exact ⟨_, _, rfl, he⟩
  | through he _ _ => exact ⟨_, _, rfl, he⟩

theorem Route.hasType_parent (h : c.Route edges route k) :
    ∀ e ∈ route, c.hasType e.parent = true := by
  induction h with
  | direct he htype hkey => simpa using htype
  | through he htype hroute ih => exact List.forall_mem_cons.2 ⟨htype, ih⟩

theorem Route.hasType_key (h : c.Route edges route k) : c.hasType k = true := by
  induction h with
  | direct _ htype hkey => rw [← hkey, c.hasType_key, htype]
  | through _ _ _ ih => exact ih

/-- A way up to a type can be followed by one that goes on from there. -/
theorem Route.trans {name k' : String} {higher : List Edge} (h : c.Route edges route k)
    (hname : Name.key name = k) (hhigher : c.Route (c.graph.edgesUp name) higher k') :
    c.Route edges (route ++ higher) k' := by
  induction h with
  | direct he htype hkey =>
      rw [c.graph.edgesUp_congr (hname.trans hkey.symm)] at hhigher
      exact .through he htype hhigher
  | through he htype hroute ih => exact .through he htype (ih hname)

/-- From each type on a way up it goes on to the end. -/
theorem Route.onward (h : c.Route edges route k) :
    ∀ e ∈ route, Name.key e.parent = k ∨ ∃ higher, c.Route (c.graph.edgesUp e.parent) higher k := by
  induction h with
  | direct he htype hkey => simpa using .inl hkey
  | through he htype hroute ih => exact List.forall_mem_cons.2 ⟨.inr ⟨_, hroute⟩, ih⟩

theorem stepsUp_of_mem_edgesUp {name : String} (he : e ∈ c.graph.edgesUp name)
    (htype : c.hasType e.parent = true) : c.StepsUp (Name.key name) (Name.key e.parent) := by
  obtain ⟨hmem, hchild⟩ := Graph.mem_edgesUp_iff.1 he
  exact ⟨⟨e, hmem, hchild, rfl⟩, (c.hasType_key e.parent).trans htype⟩

/-- There is a way up to a type exactly when steps lead to it. -/
theorem exists_route_iff {name : String} :
    (∃ route, c.Route (c.graph.edgesUp name) route k) ↔
      Relation.TransGen c.StepsUp (Name.key name) k := by
  constructor
  · rintro ⟨route, hroute⟩
    generalize hedges : c.graph.edgesUp name = edges at hroute
    induction hroute generalizing name with
    | direct he htype hkey =>
        subst hedges hkey
        exact .single (stepsUp_of_mem_edgesUp he htype)
    | through he htype hroute ih =>
        subst hedges
        exact .head (stepsUp_of_mem_edgesUp he htype) (ih rfl)
  · intro hpath
    generalize hname : Name.key name = start at hpath
    induction hpath using Relation.TransGen.head_induction_on generalizing name with
    | single hstep =>
        subst hname
        obtain ⟨⟨e, hmem, hchild, hparent⟩, htype⟩ := hstep
        subst hparent
        rw [hasType_key] at htype
        exact ⟨[e], .direct (Graph.mem_edgesUp_iff.2 ⟨hmem, hchild⟩) htype rfl⟩
    | head hstep _ ih =>
        subst hname
        obtain ⟨⟨e, hmem, hchild, hparent⟩, htype⟩ := hstep
        subst hparent
        rw [hasType_key] at htype
        obtain ⟨route, hroute⟩ := ih rfl
        exact ⟨e :: route, .through (Graph.mem_edgesUp_iff.2 ⟨hmem, hchild⟩) htype hroute⟩

/-- No way up comes back to where it began. -/
theorem Route.key_ne (hc : c.graph.WellFormed) {name : String}
    (h : c.Route (c.graph.edgesUp name) route k) : k ≠ Name.key name := by
  rintro rfl
  have hpath := exists_route_iff.1 ⟨route, h⟩
  exact hc.acyclic _ (Relation.TransGen.mono (fun _ _ hstep => hstep.1) _ _ hpath)

/-- A way up is a way to each type on it. -/
theorem Route.upTo (h : c.Route edges route k) :
    ∀ e ∈ route, ∃ lower, c.Route edges lower (Name.key e.parent) := by
  induction h with
  | direct he htype _ =>
      intro e hmem
      obtain rfl := List.mem_singleton.1 hmem
      exact ⟨[e], .direct he htype rfl⟩
  | @through edges e route k he htype _ ih =>
      intro d hmem
      rcases List.mem_cons.1 hmem with rfl | hmem
      · exact ⟨[d], .direct he htype rfl⟩
      · obtain ⟨lower, hlower⟩ := ih d hmem
        exact ⟨e :: lower, .through he htype hlower⟩

/-! ## First ways -/

theorem Precedes.asymm (hc : c.graph.WellFormed) {route' : List Edge} (hedges : edges.Nodup)
    (h : c.Precedes edges route route') : ¬ c.Precedes edges route' route := by
  induction h with
  | here route route' h =>
      intro h'
      cases h' with
      | here _ _ h' => exact not_pair_sublist_of_pair_sublist hedges h h'
      | above _ _ => exact not_pair_sublist_of_pair_sublist hedges h h
  | above e _ ih =>
      intro h'
      cases h' with
      | here _ _ h' => exact not_pair_sublist_of_pair_sublist hedges h' h'
      | above _ h' => exact ih (hc.nodup_edgesUp e.parent) h'

theorem FirstRoute.eq (hc : c.graph.WellFormed) {route' : List Edge} (hedges : edges.Nodup)
    (h : c.FirstRoute edges route k) (h' : c.FirstRoute edges route' k) : route' = route := by
  rcases h.2 route' h'.1 with heq | hprecedes
  · exact heq
  · rcases h'.2 route h.1 with heq | hprecedes'
    · exact heq.symm
    · exact absurd hprecedes' (hprecedes.asymm hc hedges)

/-- An edge that leads to no way up does not matter. -/
theorem FirstRoute.cons (h : c.FirstRoute rest route k)
    (hnone : ∀ higher, ¬ c.Route [e] (e :: higher) k) : c.FirstRoute (e :: rest) route k := by
  refine ⟨h.1.mono (List.subset_cons_self e rest), fun other hother => ?_⟩
  rcases hother.of_cons with ⟨higher, rfl, htype, hhigher⟩ | hother
  · refine absurd ?_ (hnone higher)
    rcases hhigher with ⟨rfl, hkey⟩ | hhigher
    · exact .direct List.mem_cons_self htype hkey
    · exact .through List.mem_cons_self htype hhigher
  · exact (h.2 other hother).imp_right (·.mono (List.sublist_cons_self e rest))

/-- Every way up that begins with a later edge comes after those that begin with the first. -/
theorem precedes_of_route (hroute : c.Route rest route k) (higher : List Edge) :
    c.Precedes (e :: rest) (e :: higher) route := by
  obtain ⟨e', higher', rfl, he'⟩ := hroute.exists_head
  exact .here higher higher' ((List.singleton_sublist.2 he').cons_cons e)

theorem firstRoute_direct (hc : c.graph.WellFormed) (htype : c.hasType e.parent = true) :
    c.FirstRoute (e :: rest) [e] (Name.key e.parent) := by
  refine ⟨.direct List.mem_cons_self htype rfl, fun other hother => ?_⟩
  rcases hother.of_cons with ⟨higher, rfl, _, ⟨rfl, _⟩ | hhigher⟩ | hother
  · exact .inl rfl
  · exact absurd rfl (hhigher.key_ne hc)
  · exact .inr (precedes_of_route hother [])

theorem FirstRoute.through (htype : c.hasType e.parent = true) (hk : Name.key e.parent ≠ k)
    (h : c.FirstRoute (c.graph.edgesUp e.parent) route k) :
    c.FirstRoute (e :: rest) (e :: route) k := by
  refine ⟨.through List.mem_cons_self htype h.1, fun other hother => ?_⟩
  rcases hother.of_cons with ⟨higher, rfl, _, ⟨_, hkey⟩ | hhigher⟩ | hother
  · exact absurd hkey hk
  · rcases h.2 higher hhigher with rfl | hprecedes
    · exact .inl rfl
    · exact .inr (.above e hprecedes)
  · exact .inr (precedes_of_route hother route)

/-! ## The walk -/

/-- No way up from `edges` to a type that is still to be met goes through one that was met. -/
def Clear (c : Catalog) (seen : List String) (edges : List Edge) : Prop :=
  ∀ route k, c.Route edges route k → k ∉ seen → ∀ e ∈ route, Name.key e.parent ∉ seen

theorem mem_seenAfter_tour_iff (hc : c.graph.Indexed) (seen : List String) (depth : Nat)
    (edges : List Edge) (k : String) :
    k ∈ seenAfter (c.tour seen depth edges) seen ↔
      k ∈ seen ++ (c.met seen (edges.map Edge.parent)).map Name.key := by
  rw [seenAfter_eq, map_name_tour hc]
  simp [or_comm]

theorem key_not_mem_of_mem_tour (hc : c.graph.Indexed) {seen : List String} {depth : Nat}
    {a : Ancestor} (h : a ∈ c.tour seen depth edges) : Name.key a.name ∉ seen := by
  have hmet : a.name ∈ c.met seen (edges.map Edge.parent) := by
    rw [← map_name_tour hc seen depth]
    exact List.mem_map_of_mem h
  exact (c.nodup_met seen (edges.map Edge.parent)).2 _ (List.mem_map.2 ⟨a.name, hmet, rfl⟩)

/-- The walk meets what there is a way up to. -/
theorem Clear.key_mem (hc : c.graph.Indexed) {seen : List String} (hclear : c.Clear seen edges)
    (depth : Nat) (hroute : c.Route edges route k) :
    k ∈ seenAfter (c.tour seen depth edges) seen := by
  rw [mem_seenAfter_tour_iff hc]
  by_cases hk : k ∈ seen
  · exact List.mem_append_left _ hk
  have hnew := hclear route k hroute hk
  obtain ⟨hstart, hclosed⟩ := c.met_closed seen (edges.map Edge.parent)
  have hfirst : ∀ e ∈ edges, Name.key e.parent ∈
      seen ++ (c.met seen (edges.map Edge.parent)).map Name.key :=
    fun e he => hstart e.parent (List.mem_map_of_mem he)
  -- From here on only what is met counts, not where the walk began.
  generalize c.met seen (edges.map Edge.parent) = names at hclosed hfirst ⊢
  clear hclear hstart hk
  induction hroute with
  | direct he _ hkey => exact hkey ▸ hfirst _ he
  | @through edges e route k he htype _ ih =>
      obtain ⟨hparent, hnew⟩ := List.forall_mem_cons.1 hnew
      obtain ⟨n, hn, hkey⟩ :=
        List.mem_map.1 ((List.mem_append.1 (hfirst e he)).resolve_left hparent)
      rw [← c.keyed_hasType _ _ hkey] at htype
      refine ih hnew fun e' he' => hclosed n hn htype e'.parent ?_
      rw [c.keyed_parentNames _ _ hkey, parentNames_eq hc]
      exact List.mem_map_of_mem he'

theorem Clear.tail {seen : List String} (h : c.Clear seen (e :: rest)) : c.Clear seen rest :=
  fun route k hroute => h route k (hroute.mono (List.subset_cons_self e rest))

theorem Clear.above (hc : c.graph.WellFormed) {seen : List String} (h : c.Clear seen (e :: rest))
    (htype : c.hasType e.parent = true) :
    c.Clear (Name.key e.parent :: seen) (c.graph.edgesUp e.parent) := by
  intro route k hroute hk d hd
  rw [List.mem_cons, not_or] at hk ⊢
  have hwhole := h (e :: route) k (.through List.mem_cons_self htype hroute) hk.2
  obtain ⟨lower, hlower⟩ := hroute.upTo d hd
  exact ⟨hlower.key_ne hc, hwhole d (List.mem_cons_of_mem e hd)⟩

/-- Whatever lies above a type was met with it, so the ways that are left are clear of both. -/
theorem Clear.after {seen : List String} {stops : List Ancestor} (h : c.Clear seen (e :: rest))
    (hstops : ∀ a ∈ stops, c.hasType a.name = true →
      ∃ lower, c.Route (c.graph.edgesUp e.parent) lower (Name.key a.name))
    (hmet : ∀ higher k, c.Route (c.graph.edgesUp e.parent) higher k →
      k ∈ seenAfter stops (Name.key e.parent :: seen)) :
    c.Clear (seenAfter stops (Name.key e.parent :: seen)) rest := by
  intro route k hroute hk d hd hmem
  have hold : k ∉ seen :=
    fun hmem => hk (List.mem_append_right _ (List.mem_cons_of_mem _ hmem))
  have hdnew := h.tail route k hroute hold d hd
  have hdtype := hroute.hasType_parent d hd
  have hreached : Name.key d.parent = Name.key e.parent ∨
      ∃ lower, c.Route (c.graph.edgesUp e.parent) lower (Name.key d.parent) := by
    rcases List.mem_append.1 hmem with hmem | hmem
    · obtain ⟨a, ha, hkey⟩ := List.mem_map.1 (List.mem_reverse.1 hmem)
      rw [← c.keyed_hasType _ _ hkey] at hdtype
      rw [← hkey]
      exact .inr (hstops a ha hdtype)
    · exact .inl ((List.mem_cons.1 hmem).resolve_right hdnew)
  rcases hroute.onward d hd with hend | ⟨higher, hhigher⟩
  · rw [hend] at hmem
    exact hk hmem
  · rcases hreached with hsame | ⟨lower, hlower⟩
    · rw [c.graph.edgesUp_congr hsame] at hhigher
      exact hk (hmet higher k hhigher)
    · exact hk (hmet _ k (hlower.trans rfl hhigher))

theorem Clear.undeclared {seen : List String} (h : c.Clear seen (e :: rest))
    (htype : ¬ c.hasType e.parent = true) : c.Clear (Name.key e.parent :: seen) rest := by
  intro route k hroute hk d hd
  rw [List.mem_cons, not_or] at hk ⊢
  refine ⟨fun hkey => htype ?_, h.tail route k hroute hk.2 d hd⟩
  rw [← c.keyed_hasType _ _ hkey]
  exact hroute.hasType_parent d hd

/-- Each ancestor that the walk meets has the length of the first way up to it for its depth. -/
theorem firstRoute_of_mem_tour (hc : c.graph.WellFormed) (seen : List String) (depth : Nat)
    (edges : List Edge) (hclear : c.Clear seen edges) :
    ∀ a ∈ c.tour seen depth edges, c.hasType a.name = true →
      ∃ route, c.FirstRoute edges route (Name.key a.name) ∧
        a.depth + 1 = depth + route.length := by
  fun_induction tour c seen depth edges with
  | case1 seen depth => simp
  | case2 seen depth e edges hseen ih =>
      intro a ha htype
      have hnew := key_not_mem_of_mem_tour hc.indexed ha
      obtain ⟨route, hfirst, hdepth⟩ := ih hclear.tail a ha htype
      have hnone : ∀ higher, ¬ c.Route [e] (e :: higher) (Name.key a.name) := fun _ hroute =>
        hclear _ _ (hroute.mono (by simp)) hnew e List.mem_cons_self hseen
      exact ⟨route, hfirst.cons hnone, hdepth⟩
  | case3 seen depth e edges hseen htype above ihabove =>
      rename_i ihothers
      have habove := hclear.above hc htype
      have hmet : ∀ higher k, c.Route (c.graph.edgesUp e.parent) higher k →
          k ∈ seenAfter above (Name.key e.parent :: seen) :=
        fun _ _ => habove.key_mem hc.indexed (depth + 1)
      have hnew : ∀ a ∈ above, Name.key a.name ∉ Name.key e.parent :: seen :=
        fun a => key_not_mem_of_mem_tour hc.indexed
      have hfound := ihabove habove
      rw [show c.tour _ _ (c.graph.edgesUp e.parent) = above from rfl] at hfound
      clear_value above
      have hothers := hclear.after
        (fun a ha hdeclared => (hfound a ha hdeclared).imp fun _ h => h.1.1) hmet
      intro a ha hdeclared
      rcases List.mem_cons.1 ha with rfl | ha
      · exact ⟨[e], firstRoute_direct hc htype, rfl⟩
      rcases List.mem_append.1 ha with ha | ha
      · obtain ⟨route, hfirst, hdepth⟩ := hfound a ha hdeclared
        have hk : Name.key e.parent ≠ Name.key a.name :=
          fun hkey => hnew a ha (List.mem_cons.2 (.inl hkey.symm))
        have hlength : a.depth + 1 = depth + (e :: route).length := by
          rw [List.length_cons]
          omega
        exact ⟨e :: route, hfirst.through htype hk, hlength⟩
      · have hlate := key_not_mem_of_mem_tour hc.indexed ha
        obtain ⟨route, hfirst, hdepth⟩ := ihothers hothers a ha hdeclared
        have hnone : ∀ higher, ¬ c.Route [e] (e :: higher) (Name.key a.name) := by
          intro higher hroute
          rcases hroute.of_cons with ⟨_, _, _, ⟨_, hkey⟩ | hhigher⟩ | hroute
          · rw [← hkey] at hlate
            exact hlate (List.mem_append_right _ List.mem_cons_self)
          · exact hlate (hmet _ _ hhigher)
          · obtain ⟨_, _, _, hmem⟩ := hroute.exists_head
            exact absurd hmem List.not_mem_nil
        exact ⟨route, hfirst.cons hnone, hdepth⟩
  | case4 seen depth e edges hseen htype ih =>
      intro a ha hdeclared
      rcases List.mem_cons.1 ha with rfl | ha
      · exact absurd hdeclared htype
      · obtain ⟨route, hfirst, hdepth⟩ := ih (hclear.undeclared htype) a ha hdeclared
        have hnone : ∀ higher, ¬ c.Route [e] (e :: higher) (Name.key a.name) :=
          fun _ hroute => htype (hroute.hasType_parent e List.mem_cons_self)
        exact ⟨route, hfirst.cons hnone, hdepth⟩

theorem clear_edgesUp (hc : c.graph.WellFormed) (name : String) :
    c.Clear [Name.key name] (c.graph.edgesUp name) := by
  intro route k hroute _ e he hmem
  obtain ⟨lower, hlower⟩ := hroute.upTo e he
  exact hlower.key_ne hc (List.mem_singleton.1 hmem)

/-! ## Chains -/

/-- If nothing is cut off, each entry of the chain has the length of the first way up for its
depth. -/
theorem firstRoute_of_mem_chain (howned : c.Owned) (hc : c.graph.WellFormed) {name : String}
    (h : (c.ancestors name).truncated = false) {a : Ancestor} (ha : a ∈ (c.ancestors name).chain) :
    ∃ route, c.FirstRoute (c.graph.edgesUp name) route (Name.key a.name) ∧
      a.depth = route.length := by
  rw [ancestors_eq_listed howned hc.indexed h] at ha
  obtain ⟨met, hmet, hdeclared⟩ := List.mem_filterMap.1 ha
  obtain ⟨s, hs, rfl⟩ := Option.map_eq_some_iff.1 hdeclared
  have htype : c.hasType met.name = true := by simp [hasType, hs]
  have hkey : Name.key s.qualifiedName = Name.key met.name := by
    rw [← key_declaredName howned met.name, declaredName, hs]
    rfl
  obtain ⟨route, hfirst, hdepth⟩ :=
    firstRoute_of_mem_tour hc _ _ _ (clear_edgesUp hc name) met hmet htype
  rw [← hkey] at hfirst
  exact ⟨route, hfirst, show met.depth = route.length by omega⟩

/-- If nothing is cut off, the chain has every type that there is a way up to. -/
theorem exists_mem_chain_of_route (howned : c.Owned) (hc : c.graph.WellFormed) {name : String}
    (h : (c.ancestors name).truncated = false) (hroute : c.Route (c.graph.edgesUp name) route k) :
    ∃ a ∈ (c.ancestors name).chain, Name.key a.name = k := by
  have hmem := (key_mem_typesAbove_iff hc name k).2 (exists_route_iff.1 ⟨route, hroute⟩)
  rw [typesAbove, ← map_name_preorder hc.indexed, ← map_key_listed_chain howned,
    ← ancestors_eq_listed howned hc.indexed h] at hmem
  exact List.mem_map.1 hmem

/-- Where `e` is the first edge to a direct supertype, the first way up to it has one edge unless an
earlier edge leads to a type from which there is a way to it. -/
theorem length_eq_one_iff (hc : c.graph.WellFormed) {name : String} {before later : List Edge}
    (hup : c.graph.edgesUp name = before ++ e :: later)
    (hbefore : ∀ d ∈ before, Name.key d.parent ≠ Name.key e.parent)
    (hfirst : c.FirstRoute (c.graph.edgesUp name) route (Name.key e.parent)) :
    route.length = 1 ↔ ∀ d ∈ before, c.hasType d.parent = true →
      ¬ ∃ higher, c.Route (c.graph.edgesUp d.parent) higher (Name.key e.parent) := by
  have hnodup := hc.nodup_edgesUp name
  rw [hup] at hfirst hnodup
  constructor
  · rintro hlength d hd htype ⟨higher, hhigher⟩
    obtain ⟨e', rfl⟩ := List.length_eq_one_iff.1 hlength
    have hkey : Name.key e'.parent = Name.key e.parent := by
      cases hfirst.1 with
      | direct _ _ hkey => exact hkey
      | through _ _ hroute => exact absurd hroute.exists_head (by simp)
    rcases hfirst.2 _ (.through (List.mem_append_left _ hd) htype hhigher) with heq | hprecedes
    · obtain ⟨_, _, rfl, _⟩ := hhigher.exists_head
      exact absurd heq (by simp)
    · cases hprecedes with
      | here _ _ hpair => exact hbefore e' (mem_left_of_pair_sublist hnodup hpair hd) hkey
      | above _ _ => exact hbefore _ hd hkey
  · intro hnone
    have htype : c.hasType e.parent = true := (c.hasType_key _).symm.trans hfirst.1.hasType_key
    have hdirect := hfirst.2 [e] (.direct (by simp) htype rfl)
    cases hfirst.1 with
    | direct _ _ _ => rfl
    | @through _ d higher _ hd hdtype hroute =>
        obtain ⟨_, _, rfl, _⟩ := hroute.exists_head
        rcases List.mem_append.1 hd with hd | hd
        · exact absurd ⟨_, hroute⟩ (hnone d hd hdtype)
        rcases List.mem_cons.1 hd with rfl | hd
        · exact absurd rfl (hroute.key_ne hc)
        -- A way that begins with a later edge does not precede the edge itself.
        have hpair : [e, d].Sublist (before ++ e :: later) :=
          ((List.singleton_sublist.2 hd).cons_cons e).trans (List.sublist_append_right _ _)
        rcases hdirect with heq | hprecedes
        · exact absurd heq (by simp)
        · cases hprecedes with
          | here _ _ hpair' => exact absurd hpair' (not_pair_sublist_of_pair_sublist hnodup hpair)
          | above _ hnil => exact absurd hnil (by rintro ⟨⟩)

/-! ## Every catalog -/

/-- After any changes, if the ancestors of a type are not cut off:

* for each entry of the chain exactly one way up precedes all others, and its length is the depth of
  the entry;
* every declared direct supertype is in the chain;
* it has depth one exactly when none of the declared types before it among the direct supertypes has
  it above itself. -/
theorem depth_is_length_of_first_route (changes : List Change) (name : String)
    (h : ((after changes).ancestors name).truncated = false) :
    let c := after changes
    let up := c.graph.edgesUp name
    let chain := (c.ancestors name).chain
    (∀ a ∈ chain, (∃! route, c.FirstRoute up route (Name.key a.name)) ∧
      ∀ route, c.FirstRoute up route (Name.key a.name) → a.depth = route.length) ∧
    (∀ e ∈ up, c.hasType e.parent = true → ∃ a ∈ chain, Name.key a.name = Name.key e.parent) ∧
    ∀ before e later, up = before ++ e :: later →
      (∀ d ∈ before, Name.key d.parent ≠ Name.key e.parent) →
      ∀ a ∈ chain, Name.key a.name = Name.key e.parent →
        (a.depth = 1 ↔ ∀ d ∈ before, c.hasType d.parent = true →
          ¬ Relation.TransGen c.StepsUp (Name.key d.parent) (Name.key e.parent)) := by
  intro c up chain
  have howned : c.Owned := owned_after changes
  have hc : c.graph.WellFormed := wellFormed_after changes
  have hunique : ∀ {k route route'}, c.FirstRoute up route k → c.FirstRoute up route' k →
      route' = route := FirstRoute.eq hc (hc.nodup_edgesUp name)
  refine ⟨fun a ha => ?_, fun e he htype => ?_, fun before e later hup hbefore a ha hkey => ?_⟩
  · obtain ⟨route, hfirst, hdepth⟩ := firstRoute_of_mem_chain howned hc h ha
    refine ⟨⟨route, hfirst, fun _ => hunique hfirst⟩, fun other hother => ?_⟩
    rw [hunique hfirst hother, hdepth]
  · exact exists_mem_chain_of_route howned hc h (.direct he htype rfl)
  · obtain ⟨route, hfirst, hdepth⟩ := firstRoute_of_mem_chain howned hc h ha
    rw [hkey] at hfirst
    simp only [hdepth, length_eq_one_iff hc hup hbefore hfirst, exists_route_iff]

/-- A class that implements an interface of its parent itself. -/
def twiceDrawable : List Change :=
  [.declare (.ofName (.type .classDecl) "Circle" ⟨0⟩),
   .declare (.ofName (.type .classDecl) "Shape" ⟨0⟩),
   .declare (.ofName (.type .interfaceDecl) "Drawable" ⟨0⟩),
   .relate "Circle" "Shape" .extending,
   .relate "Circle" "Drawable" .implementing,
   .relate "Shape" "Drawable" .implementing]

/-- The parent comes first and leads to the interface, which is no longer at depth one. -/
theorem twiceDrawable_first_routes :
    let c := after twiceDrawable
    (c.ancestors "Circle").truncated = false ∧
      (c.ancestors "Circle").chain = [⟨"Shape", .extending, 1⟩, ⟨"Drawable", .implementing, 2⟩] ∧
      ∀ route, c.FirstRoute (c.graph.edgesUp "Circle") route (Name.key "Drawable") →
        route.length = 2 := by
  intro c
  have hlists : (c.ancestors "Circle").truncated = false ∧
      (c.ancestors "Circle").chain =
        [⟨"Shape", .extending, 1⟩, ⟨"Drawable", .implementing, 2⟩] := by
    decide +kernel
  have hchain := (depth_is_length_of_first_route twiceDrawable "Circle" hlists.1).1
  refine ⟨hlists.1, hlists.2, fun route hroute => ?_⟩
  have hmem : ⟨"Drawable", .implementing, 2⟩ ∈ (c.ancestors "Circle").chain := by
    rw [hlists.2]
    simp
  exact ((hchain _ hmem).2 route hroute).symm

/-- A declared direct supertype need not have depth one: the interface is met on the way through the
parent, by two edges, though one edge leads to it. -/
theorem twiceDrawable_direct_at_depth_two :
    let c := after twiceDrawable
    (c.ancestors "Circle").truncated = false ∧
      c.hasType "Drawable" = true ∧
      "Drawable" ∈ (c.graph.edgesUp "Circle").map Edge.parent ∧
      (c.ancestors "Circle").chain.map (fun a => (a.name, a.depth)) =
        [("Shape", 1), ("Drawable", 2)] := by
  decide +kernel

end Catalog
end CrossReference
