import CrossReference.Catalog.Ancestry
import CrossReference.Proofs.Name
import CrossReference.Proofs.OrderedMap

/-!
# Lookups from a type

What is found from a type does not depend on the separators in front of its name. The names of types
that lookups give back are all among `Catalog.typeNames`.
-/

namespace CrossReference

theorem SymbolKey.ofName_congr {a b : String} (h : Name.relative a = Name.relative b)
    (kind : SymbolKind) : SymbolKey.ofName kind a = SymbolKey.ofName kind b := by
  unfold SymbolKey.ofName SymbolKey.fold Name.key
  rw [h]

theorem Name.relative_member_relative (owner member : String) :
    Name.relative (Name.member (Name.relative owner) member) =
      Name.relative (Name.member owner member) := by
  rw [Name.relative_member, Name.relative_relative, Name.relative_member]

theorem Graph.mem_edges_of_mem_supertypes {g : Graph} {name : String} {e : Edge}
    (h : e ∈ g.supertypes name) : e ∈ g.edges.toList := by
  have hfrom : e ∈ g.edgesFrom (Name.key name) := by
    simp only [supertypes, List.mem_append, List.mem_filter] at h
    rcases h with h | h | h <;> exact h.1
  obtain ⟨i, _, hi⟩ := List.mem_filterMap.1 hfrom
  exact Array.mem_toList_iff.2 (Array.mem_of_getElem? hi)

namespace Catalog

theorem parentsAt_relative (c : Catalog) (name : String) (depth : Nat) :
    c.parentsAt (Name.relative name) depth = c.parentsAt name depth := by
  unfold parentsAt Graph.supertypes
  rw [Name.key_relative]

theorem ancestors_relative (c : Catalog) (name : String) :
    c.ancestors (Name.relative name) = c.ancestors name := by
  unfold ancestors
  rw [Name.key_relative, parentsAt_relative]

@[simp] theorem parentOf?_relative (c : Catalog) (name : String) :
    c.parentOf? (Name.relative name) = c.parentOf? name := by
  unfold parentOf? Graph.supertypes
  rw [Name.key_relative]

@[simp] theorem findMember?_relative (c : Catalog) (name member : String) (kind : SymbolKind) :
    c.findMember? (Name.relative name) member kind = c.findMember? name member kind := by
  unfold findMember? lookup?
  rw [SymbolKey.ofName_congr (Name.relative_member_relative name member), ancestors_relative]

/-- Types whose names agree up to leading separators have the same members. -/
theorem findMember?_congr {a b : String} (h : Name.relative a = Name.relative b) (c : Catalog)
    (member : String) (kind : SymbolKind) :
    c.findMember? a member kind = c.findMember? b member kind := by
  rw [← findMember?_relative, h, findMember?_relative]

/-! ## Types that a catalog tells -/

/-- The names of types that a catalog can tell: of declared types, of supertypes, and in the
declared types of members and functions. -/
def typeNames (c : Catalog) : List String :=
  (c.symbols.entries.filter fun entry => entry.1.kind.isType).map (·.2.qualifiedName) ++
    c.graph.edges.toList.map Edge.parent ++
    c.symbols.entries.flatMap fun entry => entry.2.types.flatten

section TypeNames

variable {c : Catalog}

theorem exists_lookup?_of_lookupType? {name : String} {s : Symbol}
    (h : c.lookupType? name = some s) : ∃ kind, c.lookup? (.type kind) name = some s := by
  obtain ⟨kind, _, hs⟩ := List.exists_of_findSome?_eq_some h
  exact ⟨kind, hs⟩

theorem mem_typeNames_of_lookupType? {name : String} {s : Symbol}
    (h : c.lookupType? name = some s) : s.qualifiedName ∈ c.typeNames := by
  obtain ⟨kind, hs⟩ := exists_lookup?_of_lookupType? h
  have hentry := OrderedMap.mem_entries_of_find? hs
  refine List.mem_append_left _ (List.mem_append_left _ ?_)
  exact List.mem_map.2 ⟨_, List.mem_filter.2 ⟨hentry, rfl⟩, rfl⟩

theorem mem_typeNames_of_parentOf? {name parent : String} (h : c.parentOf? name = some parent) :
    parent ∈ c.typeNames := by
  unfold parentOf? at h
  split at h
  · exact absurd h (by simp)
  · rename_i e hfind
    split at h
    · rename_i s hs
      obtain rfl := Option.some.inj h
      exact mem_typeNames_of_lookupType? hs
    · obtain rfl := Option.some.inj h
      have he := Graph.mem_edges_of_mem_supertypes (List.mem_of_find?_eq_some hfind)
      exact List.mem_append_left _ (List.mem_append_right _ (List.mem_map_of_mem he))

theorem mem_typeNames_of_resolve? {key : SymbolKey} {s : Symbol} {type : String}
    (hs : c.symbols.find? key = some s) (h : s.types.head?.bind c.resolve? = some type) :
    type ∈ c.typeNames := by
  obtain ⟨candidates, hcandidates, hresolve⟩ := Option.bind_eq_some_iff.1 h
  unfold resolve? at hresolve
  split at hresolve
  · rename_i found hfound
    obtain rfl := Option.some.inj hresolve
    obtain ⟨name, _, hname⟩ := List.exists_of_findSome?_eq_some hfound
    exact mem_typeNames_of_lookupType? hname
  · refine List.mem_append_right _ (List.mem_flatMap.2 ⟨_, OrderedMap.mem_entries_of_find? hs, ?_⟩)
    exact List.mem_flatten.2
      ⟨candidates, List.mem_of_head? hcandidates, List.mem_of_head? hresolve⟩

theorem exists_lookup?_of_findMember? {name member : String} {kind : SymbolKind} {s : Symbol}
    (h : c.findMember? name member kind = some s) :
    ∃ owner, c.lookup? kind (Name.member owner member) = some s := by
  unfold findMember? at h
  split at h
  · rename_i found hfound
    obtain rfl := Option.some.inj h
    exact ⟨name, hfound⟩
  · obtain ⟨ancestor, _, hfound⟩ := List.exists_of_findSome?_eq_some h
    exact ⟨ancestor.name, hfound⟩

end TypeNames

end Catalog
end CrossReference
