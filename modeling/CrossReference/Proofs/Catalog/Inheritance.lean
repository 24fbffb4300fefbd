import CrossReference.Proofs.Catalog.Traversal

/-!
# Inheritance is recursive

The rule of the language is recursive: a type has what it has itself, else what comes from the first
of its direct supertypes from which anything comes. A graph without cycles leaves exactly one way to
obey the rule. A lookup goes through the list of the ancestors instead, and finds the same.

* `Catalog.Inherits` states the rule, for members and for catch-all handlers alike.
* `Catalog.existsUnique_inherits` says that there is one function that obeys it.
* `Catalog.Inherits.or_findSome?_chain` compares it with the list of the ancestors.
* `Catalog.lookups_are_recursive` draws the conclusion for both lookups.
-/

namespace CrossReference
namespace Catalog

section Rule

variable {c : Catalog} {α : Type} {own look look' : String → Option α}

/-- The function `look` obeys the rule of inheritance: it gives what a type has itself, else what it
gives for the first declared direct supertype for which it gives anything. -/
def Inherits (c : Catalog) (own look : String → Option α) : Prop :=
  ∀ name, look name = (own name).or
    ((c.graph.edgesUp name).findSome? fun e => if c.hasType e.parent then look e.parent else none)

/-- The rule, in terms of the names of the direct supertypes. -/
theorem inherits_iff (hc : c.graph.Indexed) :
    c.Inherits own look ↔ ∀ name, look name = (own name).or
      ((c.parentNames name).findSome? fun parent =>
        if c.hasType parent then look parent else none) := by
  unfold Inherits
  simp only [parentNames_eq hc, List.findSome?_map]
  rfl

/-- A lookup that gives nothing for undeclared types. -/
theorem Inherits.isLookup (h : c.Inherits own look) (hc : c.graph.Indexed) :
    c.IsLookup own fun name => if c.hasType name then look name else none := by
  intro name
  rw [← (inherits_iff hc).1 h name]

theorem exists_inherits (hc : c.graph.WellFormed) (own : String → Option α) :
    ∃ look, c.Inherits own look := by
  obtain ⟨found, hfound⟩ := exists_isLookup hc own
  refine ⟨fun name => (own name).or ((c.parentNames name).findSome? found), ?_⟩
  rw [inherits_iff hc.indexed]
  intro name
  simp only [← hfound _]

/-- What two functions that obey the rule give is the same, first for the types above and then for
the type itself. -/
theorem Inherits.unique (hc : c.graph.WellFormed) (h : c.Inherits own look)
    (h' : c.Inherits own look') : look = look' := by
  rw [inherits_iff hc.indexed] at h h'
  have hwf : WellFounded fun b a => c.graph.Leads (Name.key a) (Name.key b) :=
    InvImage.wf Name.key hc.wellFounded
  funext name
  induction name using hwf.induction with
  | _ name ih =>
      rw [h name, h' name, ← List.head?_filterMap, ← List.head?_filterMap]
      congr 2
      refine List.filterMap_congr ?_
      intro parent hparent
      rw [ih parent (leads_of_mem_parentNames hc hparent)]

/-- There is one function that obeys the rule. -/
theorem existsUnique_inherits (hc : c.graph.WellFormed) (own : String → Option α) :
    ∃! look, c.Inherits own look := by
  obtain ⟨look, hlook⟩ := exists_inherits hc own
  exact ⟨look, hlook, fun _ hother => hother.unique hc hlook⟩

/-- What a type has itself, else what the first of its ancestors has, is what the rule gives. -/
theorem Inherits.or_findSome?_chain (h : c.Inherits own look) (howned : c.Owned)
    (hc : c.graph.WellFormed) (hown : Keyed own) {name : String}
    (hlisted : (c.ancestors name).truncated = false) :
    (own name).or ((c.ancestors name).chain.findSome? fun a => own a.name) = look name := by
  rw [(h.isLookup hc.indexed).findSome?_chain howned hc hown hlisted]
  exact ((inherits_iff hc.indexed).1 h name).symm

end Rule

theorem keyed_handlerOf? (c : Catalog) (access : MemberAccess) : Keyed (c.handlerOf? access) := by
  intro a b h
  unfold handlerOf?
  rw [c.keyed_lookupType? a b h]

theorem catchAll?_eq_or (c : Catalog) (name : String) (access : MemberAccess) :
    c.catchAll? name access = (c.handlerOf? access name).or
      ((c.ancestors name).chain.findSome? fun a => c.handlerOf? access a.name) := by
  unfold catchAll?
  cases c.handlerOf? access name <;> rfl

/-- After any changes, if the ancestors of a type are not cut off, the member that is found on it is
the one that the rule of inheritance gives, where a type has itself the members that are declared
under its name; and the handler that takes an access is the one that the rule gives, where a type
has itself the handlers of its declaration. -/
theorem lookups_are_recursive (changes : List Change) {name : String}
    (h : ((after changes).ancestors name).truncated = false) :
    let c := after changes
    (∀ (member : String) (kind : SymbolKind),
      let own := fun owner => c.lookup? kind (Name.member owner member)
      (∃! look, c.Inherits own look) ∧
        ∀ look, c.Inherits own look → c.findMember? name member kind = look name) ∧
      ∀ access : MemberAccess,
        (∃! look, c.Inherits (c.handlerOf? access) look) ∧
          ∀ look, c.Inherits (c.handlerOf? access) look → c.catchAll? name access = look name := by
  intro c
  have howned : c.Owned := owned_after changes
  have hc : c.graph.WellFormed := wellFormed_after changes
  refine ⟨?_, ?_⟩
  · intro member kind own
    refine ⟨existsUnique_inherits hc own, ?_⟩
    intro look hlook
    rw [findMember?_eq_or]
    exact hlook.or_findSome?_chain howned hc (c.keyed_lookup?_member kind member) h
  · intro access
    refine ⟨existsUnique_inherits hc _, ?_⟩
    intro look hlook
    rw [catchAll?_eq_or]
    exact hlook.or_findSome?_chain howned hc (c.keyed_handlerOf? access) h

/-- The class has the constant of an interface that both it and its parent have, and the handler of
its parent. -/
theorem circle_inherits :
    let c := after figures
    (c.ancestors "Circle").truncated = false ∧
      (c.findMember? "Circle" "DEPTH" .constant).map Symbol.qualifiedName =
        some "Drawable::DEPTH" ∧
      c.catchAll? "Circle" .instanceMethod = some "Shape" ∧
      (∀ look, c.Inherits (fun owner => c.lookup? .constant (Name.member owner "DEPTH")) look →
        c.findMember? "Circle" "DEPTH" .constant = look "Circle") ∧
      ∀ look, c.Inherits (c.handlerOf? .instanceMethod) look →
        c.catchAll? "Circle" .instanceMethod = look "Circle" := by
  intro c
  have hfound : (c.ancestors "Circle").truncated = false ∧
      (c.findMember? "Circle" "DEPTH" .constant).map Symbol.qualifiedName =
        some "Drawable::DEPTH" ∧
      c.catchAll? "Circle" .instanceMethod = some "Shape" := by decide +kernel
  obtain ⟨hmembers, hhandlers⟩ := lookups_are_recursive figures hfound.1
  exact ⟨hfound.1, hfound.2.1, hfound.2.2, (hmembers "DEPTH" .constant).2,
    (hhandlers .instanceMethod).2⟩

end Catalog
end CrossReference
