import CrossReference.Proofs.Catalog.Ownership
import CrossReference.Proofs.Declaration.Collect
import CrossReference.Query.Basic
import Mathlib.Data.List.Nodup
import Mathlib.Data.List.Perm.Basic

/-!
# Catalogs that agree

Two catalogs agree when they hold the same symbols and the same edges of each type, no matter under
which numbers the files are known and in which order the symbols and the types were declared. What a
search asks of a catalog has the same answer in both:

* lookups of symbols give the same symbol, but for the number of its file (`Alike`);
* ancestors, inherited members and handlers are the same (`Catalog.Agrees.climb` goes up from a type
  in both catalogs at once);
* a query string is bound to the same query (`Catalog.Agrees.parse`).
-/

namespace CrossReference

/-- A symbol without the number of its file. -/
def Symbol.placeless (s : Symbol) : Symbol :=
  s.inFile default

theorem Symbol.qualifiedName_eq {s s' : Symbol} (h : s.placeless = s'.placeless) :
    s.qualifiedName = s'.qualifiedName :=
  (congrArg Symbol.qualifiedName h :)

/-- An edge without the number of its file. -/
def Edge.placeless (e : Edge) : Edge :=
  { e with origin := none }

/-- The same symbol, but for the number of its file, or none. -/
def Alike (o o' : Option Symbol) : Prop :=
  o.map Symbol.placeless = o'.map Symbol.placeless

theorem Alike.cases {o o' : Option Symbol} (h : Alike o o') :
    (o = none ∧ o' = none) ∨
      ∃ s s', o = some s ∧ o' = some s' ∧ s.placeless = s'.placeless := by
  unfold Alike at h
  cases o with
  | none =>
      cases o' with
      | none => exact .inl ⟨rfl, rfl⟩
      | some s' => exact absurd h (by simp)
  | some s =>
      cases o' with
      | none => exact absurd h (by simp)
      | some s' => exact .inr ⟨s, s', rfl, rfl, Option.some.inj h⟩

theorem Alike.eq_none {o' : Option Symbol} {o : Option Symbol} (h : Alike o o') (ho : o = none) :
    o' = none := by
  rcases h.cases with ⟨_, ho'⟩ | ⟨s, s', hs, _, _⟩
  · exact ho'
  · exact absurd (hs.symm.trans ho) (by simp)

theorem Alike.eq_some {o o' : Option Symbol} (h : Alike o o') {s : Symbol} (ho : o = some s) :
    ∃ s', o' = some s' ∧ s.placeless = s'.placeless := by
  rcases h.cases with ⟨hnone, _⟩ | ⟨t, s', ht, hs', hts⟩
  · exact absurd (hnone.symm.trans ho) (by simp)
  · obtain rfl : t = s := Option.some.inj (ht.symm.trans ho)
    exact ⟨s', hs', hts⟩

theorem Alike.map_eq {α : Type} {o o' : Option Symbol} (h : Alike o o') {f : Symbol → α}
    (hf : ∀ s, f s.placeless = f s) : o.map f = o'.map f := by
  have hmap : ∀ o : Option Symbol, o.map f = (o.map Symbol.placeless).map f := by
    intro o
    rw [Option.map_map, show f ∘ Symbol.placeless = f from funext hf]
  rw [hmap o, hmap o', h]

theorem Alike.isSome_eq {o o' : Option Symbol} (h : Alike o o') : o.isSome = o'.isSome := by
  rcases h.cases with ⟨rfl, rfl⟩ | ⟨s, s', rfl, rfl, _⟩
  · rfl
  · rfl

theorem alike_findSome? {α : Type} {f g : α → Option Symbol} (l : List α)
    (h : ∀ a, Alike (f a) (g a)) : Alike (l.findSome? f) (l.findSome? g) := by
  unfold Alike
  rw [List.map_findSome?, List.map_findSome?,
    show Option.map Symbol.placeless ∘ f = Option.map Symbol.placeless ∘ g from funext h]

namespace Catalog

/-- The same symbols and the same edges of each type. -/
structure Agrees (c c' : Catalog) : Prop where
  find? : ∀ key, Alike (c.symbols.find? key) (c'.symbols.find? key)
  edgesFrom : ∀ k, (c.graph.edgesFrom k).map Edge.placeless =
    (c'.graph.edgesFrom k).map Edge.placeless
  ancestorLimit : c.ancestorLimit = c'.ancestorLimit
  owned : c.Owned
  owned' : c'.Owned

namespace Agrees

variable {c c' : Catalog}

/-! ## Symbols -/

theorem lookup? (h : c.Agrees c') (kind : SymbolKind) (name : String) :
    Alike (c.lookup? kind name) (c'.lookup? kind name) :=
  h.find? _

theorem lookupType? (h : c.Agrees c') (name : String) :
    Alike (c.lookupType? name) (c'.lookupType? name) :=
  alike_findSome? _ fun _ => h.lookup? _ _

theorem hasType (h : c.Agrees c') (name : String) : c.hasType name = c'.hasType name :=
  (h.lookupType? name).isSome_eq

theorem resolve? (h : c.Agrees c') (candidates : Candidates) :
    c.resolve? candidates = c'.resolve? candidates := by
  unfold Catalog.resolve?
  rcases (alike_findSome? candidates h.lookupType?).cases with
    ⟨hc, hc'⟩ | ⟨s, s', hc, hc', hss⟩
  · rw [hc, hc']
  · rw [hc, hc']
    exact congrArg some (Symbol.qualifiedName_eq hss)

/-! ## Ancestors -/

theorem supertypes (h : c.Agrees c') (name : String) :
    (c.graph.supertypes name).map Edge.placeless =
      (c'.graph.supertypes name).map Edge.placeless := by
  have hfilter : ∀ (g : Graph) (relation : Relation),
      ((g.edgesFrom (Name.key name)).filter (·.relation = relation)).map Edge.placeless =
        ((g.edgesFrom (Name.key name)).map Edge.placeless).filter (·.relation = relation) := by
    intro g relation
    rw [List.filter_map]
    rfl
  unfold Graph.supertypes
  simp only [List.map_append, hfilter, h.edgesFrom]

theorem parentsAt (h : c.Agrees c') (name : String) (depth : Nat) :
    c.parentsAt name depth = c'.parentsAt name depth := by
  have hparents : ∀ c : Catalog, c.parentsAt name depth =
      ((c.graph.supertypes name).map Edge.placeless).map fun e =>
        { name := e.parent, relation := e.relation, depth := depth + 1 } := by
    intro c
    rw [List.map_map]
    rfl
  rw [hparents c, hparents c', h.supertypes]

/-- Both climbs meet the same types in the same order. -/
theorem climb (h : c.Agrees c') (seen : List String) (room : Nat) (toVisit : List Ancestor) :
    c.climb seen room toVisit = c'.climb seen room toVisit := by
  fun_induction Catalog.climb c seen room toVisit with
  | case1 seen room => rw [Catalog.climb]
  | case2 seen room next rest hseen ih =>
      rw [Catalog.climb, if_pos hseen, ih]
  | case3 seen room next rest hseen hnone others ih =>
      have hnone' := (h.lookupType? next.name).eq_none hnone
      rw [Catalog.climb, if_neg hseen]
      simp only [hnone', others, ih]
  | case4 seen next rest hseen s hs =>
      obtain ⟨s', hs', _⟩ := (h.lookupType? next.name).eq_some hs
      rw [Catalog.climb, if_neg hseen]
      simp only [hs']
  | case5 seen next rest hseen s hs room others ih =>
      obtain ⟨s', hs', hss⟩ := (h.lookupType? next.name).eq_some hs
      have hname := Symbol.qualifiedName_eq hss
      rw [Catalog.climb, if_neg hseen]
      simp only [hs', others, hname, ih, h.parentsAt]

theorem ancestors (h : c.Agrees c') (name : String) : c.ancestors name = c'.ancestors name := by
  unfold Catalog.ancestors
  rw [h.ancestorLimit, h.parentsAt, h.climb]

theorem isSameOrAncestor (h : c.Agrees c') (ancestor name : String) :
    c.isSameOrAncestor ancestor name = c'.isSameOrAncestor ancestor name := by
  unfold Catalog.isSameOrAncestor
  rw [h.ancestors]

theorem parentOf? (h : c.Agrees c') (name : String) : c.parentOf? name = c'.parentOf? name := by
  have hfind : ∀ c : Catalog, ((c.graph.supertypes name).find? (·.relation = .extending)).map
      Edge.placeless =
        ((c.graph.supertypes name).map Edge.placeless).find? (·.relation = .extending) := by
    intro c
    rw [List.find?_map]
    rfl
  have hedge := (hfind c).trans ((congrArg _ (h.supertypes name)).trans (hfind c').symm)
  unfold Catalog.parentOf?
  cases he : (c.graph.supertypes name).find? (·.relation = .extending) with
  | none =>
      rw [he, Option.map_none, eq_comm, Option.map_eq_none_iff] at hedge
      rw [hedge]
  | some e =>
      rw [he, Option.map_some, eq_comm, Option.map_eq_some_iff] at hedge
      obtain ⟨e', he', hee⟩ := hedge
      have hparent : e'.parent = e.parent := (congrArg Edge.parent hee :)
      rw [he']
      simp only [hparent]
      rcases (h.lookupType? e.parent).cases with ⟨hc, hc'⟩ | ⟨s, s', hc, hc', hss⟩
      · rw [hc, hc']
      · rw [hc, hc']
        exact congrArg some (Symbol.qualifiedName_eq hss)

/-! ## Members -/

theorem findMember? (h : c.Agrees c') (name member : String) (kind : SymbolKind) :
    Alike (c.findMember? name member kind) (c'.findMember? name member kind) := by
  unfold Catalog.findMember?
  rcases (h.lookup? kind (Name.member name member)).cases with
    ⟨hc, hc'⟩ | ⟨s, s', hc, hc', hss⟩
  · rw [hc, hc', h.ancestors]
    exact alike_findSome? _ fun _ => h.lookup? _ _
  · rw [hc, hc']
    exact congrArg some hss

theorem handlerOf? (h : c.Agrees c') (access : MemberAccess) (name : String) :
    c.handlerOf? access name = c'.handlerOf? access name := by
  unfold Catalog.handlerOf?
  rcases (h.lookupType? name).cases with ⟨hc, hc'⟩ | ⟨s, s', hc, hc', hss⟩
  · rw [hc, hc']
  · have hname := Symbol.qualifiedName_eq hss
    have hhandlers : s.handlers = s'.handlers := (congrArg Symbol.handlers hss :)
    rw [hc, hc']
    simp only [hname, hhandlers]

theorem catchAll? (h : c.Agrees c') (name : String) (access : MemberAccess) :
    c.catchAll? name access = c'.catchAll? name access := by
  unfold Catalog.catchAll?
  simp only [h.handlerOf?, h.ancestors]

/-! ## Queries -/

/-- The symbols of a catalog without their files, each once. -/
theorem nodup_values {c : Catalog} (hc : c.Owned) :
    (c.symbols.values.map Symbol.placeless).Nodup := by
  have hkeys : (c.symbols.values.map Symbol.placeless).map Symbol.key = c.symbols.keys := by
    unfold OrderedMap.values OrderedMap.keys
    rw [List.map_map, List.map_map]
    refine List.map_congr_left ?_
    rintro ⟨key, s⟩ hentry
    exact hc.key_eq key s (OrderedMap.find?_of_mem_entries hentry)
  exact .of_map Symbol.key (hkeys ▸ c.symbols.nodup)

theorem mem_values_iff (h : c.Agrees c') (s : Symbol) :
    s ∈ c.symbols.values.map Symbol.placeless ↔ s ∈ c'.symbols.values.map Symbol.placeless := by
  have hfind : ∀ c : Catalog, s ∈ c.symbols.values.map Symbol.placeless ↔
      ∃ key, (c.symbols.find? key).map Symbol.placeless = some s := by
    intro c
    simp only [List.mem_map, OrderedMap.mem_values_iff, Option.map_eq_some_iff]
    constructor
    · rintro ⟨s', ⟨key, hs'⟩, rfl⟩
      exact ⟨key, s', hs', rfl⟩
    · rintro ⟨key, s', hs', rfl⟩
      exact ⟨s', ⟨key, hs'⟩, rfl⟩
  rw [hfind c, hfind c']
  exact exists_congr fun key => by rw [h.find? key]

/-- The types with a last part are the same, in some order. -/
theorem typesNamed (h : c.Agrees c') (short : String) :
    ((c.typesNamed short).map Symbol.placeless).Perm
      ((c'.typesNamed short).map Symbol.placeless) := by
  have hfilter : ∀ c : Catalog, (c.typesNamed short).map Symbol.placeless =
      (c.symbols.values.map Symbol.placeless).filter fun s =>
        s.kind.isType && Text.sameFolded s.name short := by
    intro c
    rw [List.filter_map]
    rfl
  have hperm := (List.perm_ext_iff_of_nodup (nodup_values h.owned) (nodup_values h.owned')).2
    h.mem_values_iff
  rw [hfilter c, hfilter c']
  exact hperm.filter _

theorem uniqueType? (h : c.Agrees c') (name : String) :
    Query.uniqueType? c name = Query.uniqueType? c' name := by
  have hnames := (h.typesNamed name).map Symbol.qualifiedName
  rw [List.map_map, List.map_map] at hnames
  have hlength : (c.typesNamed name).length = (c'.typesNamed name).length := by
    simpa using hnames.length_eq
  unfold Query.uniqueType?
  generalize c.typesNamed name = types at hnames hlength ⊢
  generalize c'.typesNamed name = types' at hnames hlength ⊢
  rcases types with _ | ⟨only, _ | ⟨second, rest⟩⟩
  · obtain rfl := List.length_eq_zero_iff.1 hlength.symm
    rfl
  · obtain ⟨only', rfl⟩ := List.length_eq_one_iff.1 hlength.symm
    have honly : only.qualifiedName = only'.qualifiedName :=
      List.singleton_perm_singleton.1 hnames
    simp only [honly]
  · -- With two types or more, neither catalog has a unique one.
    rcases types' with _ | ⟨_, _ | ⟨_, _⟩⟩
    · simp at hlength
    · simp at hlength
    · rfl

theorem bindOwner (h : c.Agrees c') (owner : String) :
    Query.bindOwner c owner = Query.bindOwner c' owner := by
  unfold Query.bindOwner
  rcases (h.lookupType? owner).cases with ⟨hc, hc'⟩ | ⟨s, s', hc, hc', hss⟩
  · rw [hc, hc', h.uniqueType?]
  · rw [hc, hc']
    exact Symbol.qualifiedName_eq hss

theorem bindKind (h : c.Agrees c') (owner name : String) :
    Query.bindKind c owner name = Query.bindKind c' owner name := by
  unfold Query.bindKind
  simp only [(h.findMember? owner name _).isSome_eq]

theorem bindName (h : c.Agrees c') (name : String) :
    Query.bindName c name = Query.bindName c' name := by
  unfold Query.bindName
  rcases (h.lookupType? name).cases with ⟨hc, hc'⟩ | ⟨s, s', hc, hc', hss⟩
  · rw [hc, hc']
    rcases (h.lookup? .function name).cases with ⟨hc, hc'⟩ | ⟨s, s', hc, hc', hss⟩
    · rw [hc, hc']
      rcases (h.lookup? .constant name).cases with ⟨hc, hc'⟩ | ⟨s, s', hc, hc', hss⟩
      · rw [hc, hc', h.uniqueType?]
      · rw [hc, hc']
        exact congrArg Query.constant (Symbol.qualifiedName_eq hss)
    · rw [hc, hc']
      exact congrArg Query.function (Symbol.qualifiedName_eq hss)
  · rw [hc, hc']
    exact congrArg Query.type (Symbol.qualifiedName_eq hss)

/-- A query string is bound to the same query. -/
theorem parse (h : c.Agrees c') (raw : String) : Query.parse c raw = Query.parse c' raw := by
  have hbind : Query.bind c = Query.bind c' := by
    funext q
    cases q with
    | plain name => exact h.bindName name
    | function name => rfl
    | member owner name kind =>
        simp only [Query.bind, h.bindOwner, h.bindKind]
  unfold Query.parse
  rw [hbind]

end Agrees
end Catalog
end CrossReference
