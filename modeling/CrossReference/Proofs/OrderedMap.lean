import CrossReference.OrderedMap

/-!
# Laws of ordered maps

Looking a key up after an insertion or an erasure, for all keys at once.
-/

namespace CrossReference
namespace OrderedMap

variable {κ α : Type} [DecidableEq κ]

theorem find?_insert (m : OrderedMap κ α) (k k' : κ) (v : α) :
    (m.insert k v).find? k' = if k' = k then some v else m.find? k' := by
  by_cases h : k' = k
  · subst h
    rw [if_pos rfl, find?_insert_self]
  · rw [if_neg h, find?_insert_of_ne m v h]

theorem find?_erase (m : OrderedMap κ α) (k k' : κ) :
    (m.erase k).find? k' = if k' = k then none else m.find? k' := by
  by_cases h : k' = k
  · subst h
    rw [if_pos rfl, find?_erase_self]
  · rw [if_neg h, find?_erase_of_ne m h]

theorem find?_of_find?_erase {m : OrderedMap κ α} {k k' : κ} {v : α}
    (h : (m.erase k).find? k' = some v) : m.find? k' = some v := by
  rw [find?_erase] at h
  split at h
  · exact absurd h (by simp)
  · exact h

theorem contains_iff {m : OrderedMap κ α} {k : κ} :
    m.contains k = true ↔ ∃ v, m.find? k = some v :=
  Option.isSome_iff_exists

theorem mem_entries_of_find? {m : OrderedMap κ α} {k : κ} {v : α} (h : m.find? k = some v) :
    (k, v) ∈ m.entries := by
  obtain ⟨⟨k', v'⟩, hfind, rfl⟩ := Option.map_eq_some_iff.1 h
  have hk : k' = k := by simpa using List.find?_some hfind
  subst hk
  exact List.mem_of_find?_eq_some hfind

theorem find?_of_mem_entries {m : OrderedMap κ α} {k : κ} {v : α} (h : (k, v) ∈ m.entries) :
    m.find? k = some v := by
  obtain ⟨entries, nodup⟩ := m
  unfold find?
  induction entries with
  | nil => exact absurd h List.not_mem_nil
  | cons entry rest ih =>
      obtain ⟨k', v'⟩ := entry
      rw [List.map_cons, List.nodup_cons] at nodup
      rcases List.mem_cons.1 h with heq | hrest
      · obtain ⟨rfl, rfl⟩ := Prod.mk.inj heq
        simp
      · -- A later entry has another key than the first.
        have hne : k' ≠ k := by
          rintro rfl
          exact nodup.1 (List.mem_map.2 ⟨(k', v), hrest, rfl⟩)
        rw [List.find?_cons_of_neg (by simpa using hne)]
        exact ih nodup.2 hrest

theorem contains_insert (m : OrderedMap κ α) (k k' : κ) (v : α) :
    (m.insert k v).contains k' = if k' = k then true else m.contains k' := by
  unfold contains
  rw [find?_insert]
  split
  · rfl
  · rfl

theorem contains_erase (m : OrderedMap κ α) (k k' : κ) :
    (m.erase k).contains k' = if k' = k then false else m.contains k' := by
  unfold contains
  rw [find?_erase]
  split
  · rfl
  · rfl

theorem mem_keys_iff {m : OrderedMap κ α} {k : κ} : k ∈ m.keys ↔ m.contains k = true := by
  rw [contains_iff]
  unfold keys
  constructor
  · intro h
    obtain ⟨⟨_, v⟩, hentry, rfl⟩ := List.mem_map.1 h
    exact ⟨v, find?_of_mem_entries hentry⟩
  · rintro ⟨v, hv⟩
    exact List.mem_map_of_mem (mem_entries_of_find? hv)

theorem insertEntry_of_new {list : List (κ × α)} {k : κ} (h : k ∉ list.map Prod.fst) (v : α) :
    insertEntry k v list = list ++ [(k, v)] := by
  induction list with
  | nil => rfl
  | cons entry rest ih =>
      rw [List.map_cons, List.mem_cons, not_or] at h
      rw [insertEntry, if_neg (Ne.symm h.1), ih h.2]
      rfl

theorem entries_insert_of_new {m : OrderedMap κ α} {k : κ} (h : k ∉ m.keys) (v : α) :
    (m.insert k v).entries = m.entries ++ [(k, v)] :=
  insertEntry_of_new h v

theorem entries_erase_of_new {m : OrderedMap κ α} {k : κ} (h : k ∉ m.keys) :
    (m.erase k).entries = m.entries := by
  simp only [erase]
  rw [List.filter_eq_self]
  intro entry hentry
  have hne : entry.1 ≠ k := by
    rintro rfl
    exact h (List.mem_map_of_mem hentry)
  simpa using hne

theorem keys_erase (m : OrderedMap κ α) (k : κ) : (m.erase k).keys = m.keys.filter (· ≠ k) := by
  unfold keys erase
  rw [List.filter_map]
  rfl

/-- A key that is erased and inserted again comes last. -/
theorem keys_insert_erase (m : OrderedMap κ α) (k : κ) (v : α) :
    ((m.erase k).insert k v).keys = m.keys.filter (· ≠ k) ++ [k] := by
  have hnew : k ∉ (m.erase k).keys := by
    rw [keys_erase]
    simp
  rw [← keys_erase]
  unfold keys at hnew ⊢
  rw [entries_insert_of_new hnew, List.map_append]
  rfl

/-- A new key that is erased first comes last all the same. -/
theorem entries_insert_erase_of_new {m : OrderedMap κ α} {k : κ} (h : k ∉ m.keys) (v : α) :
    ((m.erase k).insert k v).entries = m.entries ++ [(k, v)] := by
  have herased := entries_erase_of_new h
  have hnew : k ∉ (m.erase k).keys := by
    unfold keys at h ⊢
    rwa [herased]
  rw [entries_insert_of_new hnew, herased]

theorem mem_values_iff {m : OrderedMap κ α} {v : α} : v ∈ m.values ↔ ∃ k, m.find? k = some v := by
  unfold values
  rw [List.mem_map]
  constructor
  · rintro ⟨⟨k, _⟩, hentry, rfl⟩
    exact ⟨k, find?_of_mem_entries hentry⟩
  · rintro ⟨k, hk⟩
    exact ⟨(k, v), mem_entries_of_find? hk, rfl⟩

end OrderedMap
end CrossReference
