/-!
# Maps in insertion order

A finite map that remembers the order in which its keys were first inserted. Replacing the value of
a key keeps its place; erasing a key closes the gap. No key occurs twice.
-/

namespace CrossReference

/-- `list` with the value of `k` replaced in place, or `(k, v)` added at its end. -/
def insertEntry {κ α : Type} [DecidableEq κ] (k : κ) (v : α) : List (κ × α) → List (κ × α)
  | [] => [(k, v)]
  | (k', v') :: rest => if k' = k then (k, v) :: rest else (k', v') :: insertEntry k v rest

theorem map_fst_insertEntry {κ α : Type} [DecidableEq κ] (k : κ) (v : α) (list : List (κ × α)) :
    (insertEntry k v list).map Prod.fst =
      if k ∈ list.map Prod.fst then list.map Prod.fst else list.map Prod.fst ++ [k] := by
  induction list with
  | nil => simp [insertEntry]
  | cons entry rest ih =>
    obtain ⟨k', v'⟩ := entry
    by_cases h : k' = k
    · subst h
      simp [insertEntry]
    · have h' : k ≠ k' := fun e => h e.symm
      simp only [insertEntry, h, if_false, List.map_cons, ih, List.mem_cons, h', false_or]
      split <;> simp

theorem nodup_insertEntry {κ α : Type} [DecidableEq κ] {k : κ} {v : α} {list : List (κ × α)}
    (h : (list.map Prod.fst).Nodup) : ((insertEntry k v list).map Prod.fst).Nodup := by
  rw [map_fst_insertEntry]
  split
  · exact h
  · rename_i hk
    rw [List.nodup_append]
    refine ⟨h, by simp, ?_⟩
    intro a ha b hb
    simp only [List.mem_singleton] at hb
    exact fun e => hk (hb ▸ e ▸ ha)

/-- A finite map with its keys in insertion order. -/
structure OrderedMap (κ α : Type) where
  /-- The entries, in the order in which their keys were first inserted. -/
  entries : List (κ × α)
  nodup : (entries.map Prod.fst).Nodup

namespace OrderedMap

variable {κ α : Type} [DecidableEq κ]

/-- The map without entries. -/
def empty : OrderedMap κ α where
  entries := []
  nodup := List.nodup_nil

instance : EmptyCollection (OrderedMap κ α) := ⟨empty⟩

instance : Inhabited (OrderedMap κ α) := ⟨empty⟩

/-- The value of `k`, if it has one. -/
def find? (m : OrderedMap κ α) (k : κ) : Option α :=
  (m.entries.find? fun entry => entry.1 = k).map Prod.snd

/-- Whether `k` has a value. -/
def contains (m : OrderedMap κ α) (k : κ) : Bool :=
  (m.find? k).isSome

/-- Gives `k` the value `v`; a new key comes last. -/
def insert (m : OrderedMap κ α) (k : κ) (v : α) : OrderedMap κ α where
  entries := insertEntry k v m.entries
  nodup := nodup_insertEntry m.nodup

/-- Removes `k`. -/
def erase (m : OrderedMap κ α) (k : κ) : OrderedMap κ α where
  entries := m.entries.filter fun entry => entry.1 ≠ k
  nodup := List.Nodup.sublist (List.filter_sublist.map _) m.nodup

omit [DecidableEq κ] in
/-- The keys in order. -/
def keys (m : OrderedMap κ α) : List κ :=
  m.entries.map Prod.fst

omit [DecidableEq κ] in
/-- The values in the order of their keys. -/
def values (m : OrderedMap κ α) : List α :=
  m.entries.map Prod.snd

omit [DecidableEq κ] in
/-- The number of keys. -/
def size (m : OrderedMap κ α) : Nat :=
  m.entries.length

omit [DecidableEq κ] in
/-- Whether there is no key. -/
def isEmpty (m : OrderedMap κ α) : Bool :=
  m.entries.isEmpty

@[simp] theorem find?_empty (k : κ) : (empty : OrderedMap κ α).find? k = none := rfl

@[simp] theorem find?_insert_self (m : OrderedMap κ α) (k : κ) (v : α) :
    (m.insert k v).find? k = some v := by
  obtain ⟨entries, nodup⟩ := m
  simp only [find?, insert]
  induction entries with
  | nil => simp [insertEntry]
  | cons entry rest ih =>
    obtain ⟨k', v'⟩ := entry
    by_cases h : k' = k
    · simp [insertEntry, h]
    · simp only [List.map_cons, List.nodup_cons] at nodup
      simpa [insertEntry, h] using ih nodup.2

theorem find?_insert_of_ne (m : OrderedMap κ α) {k k' : κ} (v : α) (hne : k' ≠ k) :
    (m.insert k v).find? k' = m.find? k' := by
  obtain ⟨entries, nodup⟩ := m
  simp only [find?, insert]
  induction entries with
  | nil => simp [insertEntry, hne.symm]
  | cons entry rest ih =>
    obtain ⟨k₁, v₁⟩ := entry
    simp only [List.map_cons, List.nodup_cons] at nodup
    by_cases h : k₁ = k
    · subst h
      simp [insertEntry, hne.symm]
    · by_cases h' : k₁ = k'
      · subst h'
        simp [insertEntry, h]
      · simpa [insertEntry, h, h'] using ih nodup.2

@[simp] theorem find?_erase_self (m : OrderedMap κ α) (k : κ) : (m.erase k).find? k = none := by
  simp [find?, erase]

theorem find?_erase_of_ne (m : OrderedMap κ α) {k k' : κ} (hne : k' ≠ k) :
    (m.erase k).find? k' = m.find? k' := by
  obtain ⟨entries, nodup⟩ := m
  simp only [find?, erase]
  clear nodup
  induction entries with
  | nil => rfl
  | cons entry rest ih =>
    by_cases h : entry.1 = k
    · simpa [h, hne.symm] using ih
    · by_cases h' : entry.1 = k'
      · simp [hne, h']
      · simpa [h, h'] using ih

end OrderedMap
end CrossReference
