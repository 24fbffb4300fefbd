/-!
# ASCII case

The indexed language compares most names without regard to the case of ASCII letters. Every other
character stands for itself, so two texts agree up to case exactly when they fold to one text.
-/

namespace CrossReference
namespace Text

/-- `s` with its ASCII capitals lowered. -/
def foldCase (s : String) : String :=
  String.ofList (s.toList.map Char.toLower)

/-- Equality up to the case of ASCII letters. -/
def sameFolded (a b : String) : Bool :=
  foldCase a == foldCase b

@[simp] theorem toList_foldCase (s : String) :
    (foldCase s).toList = s.toList.map Char.toLower := by
  simp [foldCase]

theorem toLower_toLower (c : Char) : c.toLower.toLower = c.toLower := by
  by_cases h : c.val ≥ 'A'.val ∧ c.val ≤ 'Z'.val
  · have hlow : ¬ (c.toLower.val ≥ 'A'.val ∧ c.toLower.val ≤ 'Z'.val) := by
      have hval : c.toLower.val = c.val + ('a'.val - 'A'.val) :=
        congrArg Char.val (dif_pos h)
      rw [hval]
      rintro ⟨_, hz⟩
      obtain ⟨h₁, h₂⟩ := h
      simp only [ge_iff_le, UInt32.le_iff_toNat_le] at *
      simp only [UInt32.toNat_add] at hz
      change 65 ≤ c.val.toNat at h₁
      change c.val.toNat ≤ 90 at h₂
      change (c.val.toNat + 32) % 4294967296 ≤ 90 at hz
      omega
    exact dif_neg hlow
  · have hid : c.toLower = c := dif_neg h
    rw [hid, hid]

/-- Folding twice is folding once. -/
@[simp] theorem foldCase_foldCase (s : String) : foldCase (foldCase s) = foldCase s := by
  apply String.toList_inj.1
  simp only [toList_foldCase, List.map_map]
  exact List.map_congr_left fun c _ => toLower_toLower c

theorem sameFolded_iff {a b : String} : sameFolded a b = true ↔ foldCase a = foldCase b := by
  simp [sameFolded]

end Text
end CrossReference
