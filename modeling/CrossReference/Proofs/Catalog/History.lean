import CrossReference.Proofs.Catalog.Ownership
import Mathlib.Data.List.Induction
import Mathlib.Data.List.Nodup

/-!
# The symbols of a catalog and its history

A catalog holds what was declared last. A symbol stays until another one with its key is declared
or its file is removed, and no other change takes it away. So the symbols can be read off the
changes alone, without the lists that the catalog keeps for its files.

* `Catalog.Stands` says of a symbol that it was declared and that no later change took it away.
* `Catalog.Owned.find?_apply_iff` says what one change does to a symbol, and
  `Catalog.find?_after_iff` what a sequence of changes does.
* `Catalog.Owned.map_key_symbolsIn` and `Catalog.Owned.mem_symbolsIn_iff` describe the symbols that
  are listed for a file.
* `Catalog.last_declared_found` puts them together.
-/

namespace CrossReference
namespace Catalog

/-! ## One change -/

/-- Whether a change takes the symbol `s` away: a symbol with the same key comes in its place, or
its file is removed. -/
def Change.Ousts (s : Symbol) : Change → Prop
  | .declare t => t.key = s.key
  | .removeFile file => file = s.file
  | _ => False

/-- After a change a symbol is there if the change declares it, or if it was there and is not taken
away. -/
theorem Owned.find?_apply_iff {c : Catalog} (hc : c.Owned) (change : Change) (s : Symbol) :
    (c.apply change).symbols.find? s.key = some s ↔
      change = .declare s ∨ c.symbols.find? s.key = some s ∧ ¬ change.Ousts s := by
  cases change with
  | declare t =>
      rw [show c.apply (.declare t) = c.declare t from rfl, find?_declare, Change.declare.injEq]
      by_cases hkey : s.key = t.key
      · simp [hkey, Change.Ousts]
      · have hne : t ≠ s := fun h => hkey (h ▸ rfl)
        simp [hkey, hne, Change.Ousts, Ne.symm hkey]
  | removeFile file =>
      rw [show c.apply (.removeFile file) = c.removeFile file from rfl, hc.find?_removeFile,
        Option.filter_eq_some_iff, decide_eq_true_iff, ne_comm]
      simp [Change.Ousts]
  | relate child parent relation =>
      rw [(symbols_apply_relate c child parent relation).1]
      simp [Change.Ousts]
  | link =>
      rw [show c.apply .link = c.link from rfl, (symbols_link c).1]
      simp [Change.Ousts]
  | setClauses file clauses =>
      rw [show (c.apply (.setClauses file clauses)).symbols = c.symbols from rfl]
      simp [Change.Ousts]
  | setAncestorLimit limit =>
      rw [show (c.apply (.setAncestorLimit limit)).symbols = c.symbols from rfl]
      simp [Change.Ousts]

/-! ## A sequence of changes -/

/-- The symbol `s` is declared by one of the changes and taken away by none that comes after. -/
def Stands (changes : List Change) (s : Symbol) : Prop :=
  ∃ earlier later, changes = earlier ++ .declare s :: later ∧ ∀ change ∈ later, ¬ change.Ousts s

theorem stands_concat_iff (changes : List Change) (change : Change) (s : Symbol) :
    Stands (changes ++ [change]) s ↔
      change = .declare s ∨ Stands changes s ∧ ¬ change.Ousts s := by
  constructor
  · rintro ⟨earlier, later, heq, hkept⟩
    -- Either the last change declares the symbol, or it is one of the later ones.
    rcases List.eq_nil_or_concat' later with rfl | ⟨later, last, rfl⟩
    · have hlast := List.append_inj_right' heq rfl
      exact .inl (List.singleton_inj.1 hlast)
    · rw [← List.cons_append, ← List.append_assoc] at heq
      obtain ⟨hchanges, hlast⟩ := List.append_inj' heq rfl
      rw [List.singleton_inj.1 hlast]
      rw [List.forall_mem_append, List.forall_mem_singleton] at hkept
      exact .inr ⟨⟨earlier, later, hchanges, hkept.1⟩, hkept.2⟩
  · rintro (rfl | ⟨⟨earlier, later, rfl, hkept⟩, hlast⟩)
    · exact ⟨changes, [], rfl, List.forall_mem_nil _⟩
    · refine ⟨earlier, later ++ [change], by simp, ?_⟩
      rw [List.forall_mem_append, List.forall_mem_singleton]
      exact ⟨hkept, hlast⟩

theorem after_concat (changes : List Change) (change : Change) :
    after (changes ++ [change]) = (after changes).apply change := by
  unfold after
  rw [List.foldl_append]
  rfl

/-- After any changes a symbol is found under its key if and only if it stands. -/
theorem find?_after_iff (changes : List Change) (s : Symbol) :
    (after changes).symbols.find? s.key = some s ↔ Stands changes s := by
  induction changes using List.reverseRecOn with
  | nil =>
      refine iff_of_false (by simp [show (after []).symbols = OrderedMap.empty from rfl]) ?_
      rintro ⟨earlier, later, heq, _⟩
      exact absurd heq (by simp)
  | append_singleton changes change ih =>
      rw [after_concat, (owned_after changes).find?_apply_iff, stands_concat_iff, ih]

/-! ## The symbols of a file -/

section Listed

variable {c : Catalog}

theorem symbolsIn_eq (c : Catalog) (file : FileId) :
    c.symbolsIn file = (c.keysOf file).filterMap c.symbols.find? := rfl

/-- The list of a file is the list of the keys of its symbols. -/
theorem Owned.map_key_symbolsIn (hc : c.Owned) (file : FileId) :
    (c.symbolsIn file).map Symbol.key = c.keysOf file := by
  have hfound : ∀ key ∈ c.keysOf file, (c.symbols.find? key).map Symbol.key = some key := by
    intro key hkey
    obtain ⟨s, hs, _⟩ := Option.map_eq_some_iff.1 ((hc.mem_keysOf_iff file key).1 hkey)
    rw [hs, Option.map_some, hc.key_eq key s hs]
  rw [symbolsIn_eq, List.map_filterMap, List.filterMap_congr hfound, List.filterMap_some]

theorem Owned.mem_symbolsIn_iff (hc : c.Owned) (file : FileId) (s : Symbol) :
    s ∈ c.symbolsIn file ↔ s ∈ c.symbols.values ∧ s.file = file := by
  rw [symbolsIn_eq, List.mem_filterMap, OrderedMap.mem_values_iff]
  constructor
  · rintro ⟨key, hkey, hs⟩
    rw [hc.mem_keysOf_iff, ownerOf?, hs] at hkey
    exact ⟨⟨key, hs⟩, Option.some.inj hkey⟩
  · rintro ⟨⟨key, hs⟩, hfile⟩
    refine ⟨key, (hc.mem_keysOf_iff file key).2 ?_, hs⟩
    rw [ownerOf?, hs, Option.map_some, hfile]

end Listed

/-- After any changes, a lookup finds the symbol that was declared last under its kind and folded
name, unless the file of that symbol was removed later; and the symbols of a file are those of the
catalog that came from it, each listed once. -/
theorem last_declared_found (changes : List Change) :
    (∀ (kind : SymbolKind) (name : String) (s : Symbol),
      (after changes).lookup? kind name = some s ↔
        ∃ earlier later, changes = earlier ++ .declare s :: later ∧
          s.key = .ofName kind name ∧
          (∀ t, .declare t ∈ later → t.key ≠ .ofName kind name) ∧
          .removeFile s.file ∉ later) ∧
      ∀ file : FileId, ((after changes).symbolsIn file).Nodup ∧
        ∀ s, s ∈ (after changes).symbolsIn file ↔
          s ∈ (after changes).symbols.values ∧ s.file = file := by
  have howned := owned_after changes
  refine ⟨?_, ?_⟩
  · intro kind name s
    constructor
    · intro hfound
      have hkey : s.key = .ofName kind name := howned.key_eq _ _ hfound
      rw [lookup?, ← hkey, find?_after_iff] at hfound
      obtain ⟨earlier, later, heq, hkept⟩ := hfound
      refine ⟨earlier, later, heq, hkey, ?_, ?_⟩
      · intro t ht
        rw [← hkey]
        exact hkept _ ht
      · intro hremoved
        exact hkept _ hremoved rfl
    · rintro ⟨earlier, later, heq, hkey, hlast, hremoved⟩
      rw [lookup?, ← hkey, find?_after_iff]
      refine ⟨earlier, later, heq, ?_⟩
      intro change hchange
      cases change with
      | declare t =>
          show t.key ≠ s.key
          rw [hkey]
          exact hlast t hchange
      | removeFile file =>
          rintro rfl
          exact hremoved hchange
      | _ => exact id
  · intro file
    refine ⟨List.Nodup.of_map Symbol.key ?_, howned.mem_symbolsIn_iff file⟩
    rw [howned.map_key_symbolsIn]
    exact howned.keysOf_nodup file

end Catalog
end CrossReference
