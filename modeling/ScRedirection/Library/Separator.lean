import Mathlib.Data.List.Basic

/-! # Joining with a separator

What `List.splitOn` and `List.intercalate` say of lists whose parts hold no separator.
-/

universe u

namespace Separator

variable {α : Type u}

theorem intercalate_cons (c : α) (p : List α) (parts : List (List α)) :
    [c].intercalate (p :: parts) = p ++ parts.flatMap fun q => c :: q := by
  induction parts generalizing p with
  | nil => simp
  | cons q parts ih =>
    rw [List.intercalate_cons_cons, ih, List.flatMap_cons]
    simp

theorem length_le_flatMap_cons (c : α) (parts : List (List α)) :
    parts.length ≤ (parts.flatMap fun q => c :: q).length := by
  induction parts with
  | nil => exact Nat.le_refl _
  | cons q parts ih =>
    rw [List.flatMap_cons, List.length_append, List.length_cons, List.length_cons]
    omega

variable [BEq α]

theorem length_splitOn (c : α) (s : List α) : (s.splitOn c).length = s.count c + 1 := by
  induction s with
  | nil => rfl
  | cons d s ih =>
    rw [List.splitOn_cons_eq_if_modifyHead, List.count_cons]
    split_ifs
    · rw [List.length_cons, ih]
    · rw [List.length_modifyHead, ih, Nat.add_zero]

variable [LawfulBEq α] {c : α}

theorem findIdx?_of_not_mem {p : List α} (h : c ∉ p) : p.findIdx? (· == c) = none := by
  rw [List.findIdx?_eq_none_iff]
  intro d hd
  rw [beq_eq_false_iff_ne]
  rintro rfl
  exact h hd

theorem not_mem_of_mem_splitOn {s p : List α} (h : p ∈ s.splitOn c) : c ∉ p := by
  induction s generalizing p with
  | nil =>
    rw [List.splitOn_nil, List.mem_singleton] at h
    rw [h]
    exact List.not_mem_nil
  | cons d s ih =>
    rw [List.splitOn_cons_eq_if_modifyHead] at h
    split_ifs at h with hd
    · rcases List.mem_cons.mp h with rfl | h
      · exact List.not_mem_nil
      · exact ih h
    · obtain ⟨first, rest, hParts⟩ := List.exists_cons_of_ne_nil (List.splitOn_ne_nil c s)
      rw [hParts] at h ih
      rcases List.mem_cons.mp h with rfl | h
      · rw [List.mem_cons, not_or]
        refine ⟨?_, ih List.mem_cons_self⟩
        rintro rfl
        exact hd (BEq.refl c)
      · exact ih (List.mem_cons_of_mem _ h)

end Separator
