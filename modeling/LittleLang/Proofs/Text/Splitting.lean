/-!
# Pieces of a split

The pieces into which a list is split at an element do not have that element, and there is one more
of them than it occurs.
-/

namespace LittleLang

variable {α : Type} [BEq α]

theorem not_mem_of_mem_splitOn [LawfulBEq α] {a : α} {part xs : List α}
    (h : part ∈ xs.splitOn a) : a ∉ part := by
  induction xs generalizing part with
  | nil =>
      rw [List.splitOn_nil, List.mem_singleton] at h
      simp [h]
  | cons x rest ih =>
      rw [List.splitOn_cons_eq_if_modifyHead] at h
      obtain ⟨first, others, split⟩ := List.exists_cons_of_ne_nil (List.splitOn_ne_nil a rest)
      rw [split] at h ih
      by_cases cut : x = a
      · simp only [cut, beq_self_eq_true, if_true, List.mem_cons] at h
        rcases h with rfl | h
        · simp
        · exact ih (List.mem_cons.mpr h)
      · simp only [beq_iff_eq, cut, if_false, List.modifyHead_cons, List.mem_cons] at h
        rcases h with rfl | h
        · have kept := ih List.mem_cons_self
          simp [kept, Ne.symm cut]
        · exact ih (List.mem_cons_of_mem _ h)

theorem length_splitOn (a : α) (xs : List α) : (xs.splitOn a).length = xs.count a + 1 := by
  induction xs with
  | nil => rfl
  | cons x rest ih =>
      rw [List.splitOn_cons_eq_if_modifyHead, List.count_cons]
      split
      · rw [List.length_cons, ih]
      · rw [List.length_modifyHead, ih]

end LittleLang
