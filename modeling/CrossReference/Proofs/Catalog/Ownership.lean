import CrossReference.Proofs.Catalog.Changes
import CrossReference.Proofs.OrderedMap
import Mathlib.Tactic.ByContra

/-!
# Who owns a symbol

A catalog keeps for each file a list of the keys that it declares. The lists are exact: a key is on
the list of a file if and only if the symbol with that key came from the file. So removing a file
removes the symbols that are its own and no others.

* `Catalog.Owned` is the invariant, and `Catalog.owned_after` says that it always holds.
* `Catalog.find?_declare` and `Catalog.Owned.find?_removeFile` say what the two changes of the
  symbols do to a lookup.
-/

namespace CrossReference
namespace Catalog

/-- The keys on the list of a file. -/
def keysOf (c : Catalog) (file : FileId) : List SymbolKey :=
  (c.declaredBy.find? file).getD []

/-- The file that the symbol with a key came from. -/
def ownerOf? (c : Catalog) (key : SymbolKey) : Option FileId :=
  (c.symbols.find? key).map Symbol.file

/-- Each symbol is kept under its own key, and the list of a file holds the keys of its symbols,
each once. -/
structure Owned (c : Catalog) : Prop where
  key_eq : ∀ key s, c.symbols.find? key = some s → s.key = key
  mem_keysOf_iff : ∀ file key, key ∈ c.keysOf file ↔ c.ownerOf? key = some file
  keysOf_nodup : ∀ file, (c.keysOf file).Nodup

theorem owned_empty : (∅ : Catalog).Owned where
  key_eq := by
    intro key s h
    exact absurd h (by simp [show (∅ : Catalog).symbols = OrderedMap.empty from rfl])
  mem_keysOf_iff := by
    intro file key
    simp [keysOf, ownerOf?, show (∅ : Catalog).symbols = OrderedMap.empty from rfl,
      show (∅ : Catalog).declaredBy = OrderedMap.empty from rfl]
  keysOf_nodup := fun _ => List.nodup_nil

/-- Only the symbols and the lists of the files matter. -/
theorem Owned.congr {c c' : Catalog} (hc : c.Owned) (hsymbols : c'.symbols = c.symbols)
    (howners : c'.declaredBy = c.declaredBy) : c'.Owned where
  key_eq := by
    rw [hsymbols]
    exact hc.key_eq
  mem_keysOf_iff := by
    unfold keysOf ownerOf?
    rw [hsymbols, howners]
    exact hc.mem_keysOf_iff
  keysOf_nodup := by
    unfold keysOf
    rw [howners]
    exact hc.keysOf_nodup

/-! ## Declaring a symbol -/

theorem find?_declare (c : Catalog) (s : Symbol) (key : SymbolKey) :
    (c.declare s).symbols.find? key = if key = s.key then some s else c.symbols.find? key :=
  OrderedMap.find?_insert _ _ _ _

theorem ownerOf?_declare (c : Catalog) (s : Symbol) (key : SymbolKey) :
    (c.declare s).ownerOf? key = if key = s.key then some s.file else c.ownerOf? key := by
  unfold ownerOf?
  rw [find?_declare]
  split
  · rfl
  · rfl

/-- The list of a file after a key was taken off the list of its former owner. -/
theorem getD_find?_disown (owners : OrderedMap FileId (List SymbolKey)) (key : SymbolKey)
    (file f : FileId) (previous : Option Symbol) :
    ((disown owners key file previous).find? f).getD [] =
      if previous.map Symbol.file = some f ∧ f ≠ file then
        ((owners.find? f).getD []).filter (· ≠ key)
      else
        (owners.find? f).getD [] := by
  cases previous with
  | none => simp [disown]
  | some p =>
      by_cases hp : p.file = file
      · -- The file declares its own key again and keeps it on its list.
        have hno : ¬ (some p.file = some f ∧ f ≠ file) := by
          rintro ⟨hf, hne⟩
          exact hne ((Option.some.inj hf).symm.trans hp)
        rw [Option.map_some, if_neg hno]
        simp [disown, hp]
      · cases hfind : owners.find? p.file with
        | none =>
            by_cases hf : p.file = f
            · subst hf
              simp [disown, hp, hfind]
            · simp [disown, hp, hfind, hf]
        | some keys =>
            by_cases hf : p.file = f
            · subst hf
              simp [disown, hp, hfind]
            · have hf' : f ≠ p.file := fun h => hf h.symm
              simp [disown, hp, hfind, hf, OrderedMap.find?_insert, hf']

theorem getD_find?_own (owners : OrderedMap FileId (List SymbolKey)) (key : SymbolKey)
    (file f : FileId) :
    ((own owners key file).find? f).getD [] =
      if f = file ∧ key ∉ (owners.find? f).getD [] then
        (owners.find? f).getD [] ++ [key]
      else
        (owners.find? f).getD [] := by
  unfold own
  rw [OrderedMap.find?_insert]
  by_cases hf : f = file
  · subst hf
    by_cases hkey : key ∈ (owners.find? f).getD []
    · simp [hkey]
    · simp [hkey]
  · simp [hf]

theorem mem_disown_iff (owners : OrderedMap FileId (List SymbolKey)) (key k : SymbolKey)
    (file f : FileId) (previous : Option Symbol) :
    k ∈ ((disown owners key file previous).find? f).getD [] ↔
      k ∈ (owners.find? f).getD [] ∧
        ¬ (k = key ∧ previous.map Symbol.file = some f ∧ f ≠ file) := by
  rw [getD_find?_disown]
  split
  · rename_i hprev
    simp [List.mem_filter, hprev]
  · rename_i hprev
    exact ⟨fun h => ⟨h, fun hno => hprev hno.2⟩, And.left⟩

theorem mem_own_iff (owners : OrderedMap FileId (List SymbolKey)) (key k : SymbolKey)
    (file f : FileId) :
    k ∈ ((own owners key file).find? f).getD [] ↔
      k ∈ (owners.find? f).getD [] ∨ f = file ∧ k = key := by
  rw [getD_find?_own]
  split
  · rename_i hnew
    simp [hnew.1]
  · rename_i hnew
    constructor
    · exact .inl
    · rintro (h | ⟨rfl, rfl⟩)
      · exact h
      · by_contra hmem
        exact hnew ⟨rfl, hmem⟩

/-- A declaration takes its key off all lists but that of its own file. -/
theorem Owned.mem_keysOf_declare_iff {c : Catalog} (hc : c.Owned) (s : Symbol) (file : FileId)
    (key : SymbolKey) :
    key ∈ (c.declare s).keysOf file ↔
      if key = s.key then file = s.file else key ∈ c.keysOf file := by
  have hmem : key ∈ (c.declare s).keysOf file ↔
      (key ∈ c.keysOf file ∧ ¬ (key = s.key ∧ c.ownerOf? s.key = some file ∧ file ≠ s.file)) ∨
        file = s.file ∧ key = s.key :=
    (mem_own_iff _ _ _ _ _).trans (or_congr_left (mem_disown_iff _ _ _ _ _ _))
  rw [hmem]
  by_cases hkey : key = s.key
  · subst hkey
    rw [if_pos rfl, hc.mem_keysOf_iff]
    constructor
    · rintro (⟨howner, hno⟩ | ⟨hfile, _⟩)
      · -- The former owner has lost the key, unless it is the file itself.
        by_contra hne
        exact hno ⟨rfl, howner, hne⟩
      · exact hfile
    · exact fun hfile => .inr ⟨hfile, rfl⟩
  · simp [hkey]

theorem nodup_own {owners : OrderedMap FileId (List SymbolKey)} {key : SymbolKey} {file : FileId}
    (h : ∀ f, ((owners.find? f).getD []).Nodup) (f : FileId) :
    (((own owners key file).find? f).getD []).Nodup := by
  rw [getD_find?_own]
  split
  · rename_i hnew
    rw [List.nodup_append]
    refine ⟨h f, by simp, ?_⟩
    intro a ha b hb hab
    rw [List.mem_singleton] at hb
    subst hab
    subst hb
    exact hnew.2 ha
  · exact h f

theorem nodup_disown {owners : OrderedMap FileId (List SymbolKey)} {key : SymbolKey}
    {file : FileId} {previous : Option Symbol} (h : ∀ f, ((owners.find? f).getD []).Nodup)
    (f : FileId) : (((disown owners key file previous).find? f).getD []).Nodup := by
  rw [getD_find?_disown]
  split
  · exact (h f).sublist List.filter_sublist
  · exact h f

theorem Owned.declare {c : Catalog} (hc : c.Owned) (s : Symbol) : (c.declare s).Owned where
  key_eq := by
    intro key s' h
    rw [find?_declare] at h
    split at h
    · rename_i hkey
      rw [← Option.some.inj h, hkey]
    · exact hc.key_eq key s' h
  mem_keysOf_iff := by
    intro file key
    rw [hc.mem_keysOf_declare_iff, ownerOf?_declare]
    split
    · rw [Option.some.injEq, eq_comm]
    · exact hc.mem_keysOf_iff file key
  keysOf_nodup := nodup_own (nodup_disown hc.keysOf_nodup)

/-! ## Removing a file -/

theorem find?_eraseOwn (file : FileId) (symbols : OrderedMap SymbolKey Symbol)
    (key k : SymbolKey) :
    (eraseOwn file symbols key).find? k =
      if k = key then (symbols.find? k).filter (·.file ≠ file) else symbols.find? k := by
  unfold eraseOwn
  by_cases hk : k = key
  · subst hk
    rw [if_pos rfl]
    cases h : symbols.find? k with
    | none => simp [h]
    | some s =>
        by_cases hs : s.file = file
        · simp [hs, Option.filter]
        · simp [hs, h, Option.filter]
  · rw [if_neg hk]
    split
    · split
      · rw [OrderedMap.find?_erase, if_neg hk]
      · rfl
    · rfl

theorem find?_foldl_eraseOwn (file : FileId) (keys : List SymbolKey)
    (symbols : OrderedMap SymbolKey Symbol) (k : SymbolKey) :
    (keys.foldl (eraseOwn file) symbols).find? k =
      if k ∈ keys then (symbols.find? k).filter (·.file ≠ file) else symbols.find? k := by
  induction keys generalizing symbols with
  | nil => simp
  | cons key rest ih =>
      rw [List.foldl_cons, ih, find?_eraseOwn]
      by_cases hk : k = key
      · subst hk
        by_cases hrest : k ∈ rest
        · simp [hrest, Option.filter_filter]
        · simp [hrest]
      · simp [hk]

/-- Removing a file removes its own symbols and no others. -/
theorem Owned.find?_removeFile {c : Catalog} (hc : c.Owned) (file : FileId) (key : SymbolKey) :
    (c.removeFile file).symbols.find? key = (c.symbols.find? key).filter (·.file ≠ file) := by
  have hlist := find?_foldl_eraseOwn file (c.keysOf file) c.symbols key
  unfold removeFile
  rw [show (c.declaredBy.find? file).getD [] = c.keysOf file from rfl, hlist]
  split
  · rfl
  · rename_i hmem
    -- A key that is not on the list of the file came from another one.
    cases hfind : c.symbols.find? key with
    | none => rfl
    | some s =>
        have hne : s.file ≠ file := by
          intro hfile
          apply hmem
          rw [hc.mem_keysOf_iff]
          simp [ownerOf?, hfind, hfile]
        simp [Option.filter, hne]

theorem Owned.ownerOf?_removeFile {c : Catalog} (hc : c.Owned) (file : FileId)
    (key : SymbolKey) :
    (c.removeFile file).ownerOf? key = (c.ownerOf? key).filter (· ≠ file) := by
  unfold ownerOf?
  rw [hc.find?_removeFile]
  cases c.symbols.find? key with
  | none => rfl
  | some s =>
      by_cases hs : s.file = file
      · simp [Option.filter, hs]
      · simp [Option.filter, hs]

theorem keysOf_removeFile (c : Catalog) (file f : FileId) :
    (c.removeFile file).keysOf f = if f = file then [] else c.keysOf f := by
  unfold keysOf removeFile
  rw [OrderedMap.find?_erase]
  split
  · rfl
  · rfl

theorem Owned.removeFile {c : Catalog} (hc : c.Owned) (file : FileId) :
    (c.removeFile file).Owned where
  key_eq := by
    intro key s h
    rw [hc.find?_removeFile] at h
    exact hc.key_eq key s (Option.eq_some_of_filter_eq_some h)
  mem_keysOf_iff := by
    intro f key
    rw [keysOf_removeFile, hc.ownerOf?_removeFile, Option.filter_eq_some_iff]
    by_cases hf : f = file
    · subst hf
      simp
    · simp [hf, hc.mem_keysOf_iff]
  keysOf_nodup := by
    intro f
    rw [keysOf_removeFile]
    split
    · exact List.nodup_nil
    · exact hc.keysOf_nodup f

/-! ## Every catalog -/

theorem Owned.apply {c : Catalog} (hc : c.Owned) (change : Change) : (c.apply change).Owned := by
  cases change with
  | declare s => exact hc.declare s
  | relate child parent relation =>
      obtain ⟨hsymbols, howners⟩ := symbols_apply_relate c child parent relation
      exact hc.congr hsymbols howners
  | removeFile file => exact hc.removeFile file
  | setClauses file clauses => exact hc.congr rfl rfl
  | link => exact hc.congr (symbols_link c).1 (symbols_link c).2
  | setAncestorLimit limit => exact hc.congr rfl rfl

/-- After any changes the lists of the files are exact. -/
theorem owned_after (changes : List Change) : (after changes).Owned :=
  after_induction owned_empty (fun _ change hc => hc.apply change) changes

end Catalog
end CrossReference
