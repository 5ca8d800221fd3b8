import LittleLang.Decl.Stylesheet
import LittleLang.Proofs.Print.Printer

/-!
# Lines below one another
-/

namespace LittleLang.Decl

variable {l : List UInt8} {ls us : List (List UInt8)}

/-- At least one line. None is empty, and none has a line feed in it. -/
structure Lines (ls : List (List UInt8)) : Prop where
  ne_nil : ls ≠ []
  each : ∀ l ∈ ls, l ≠ [] ∧ lineFeed ∉ l

/-- Lines with a line feed between them. -/
def stacked (ls : List (List UInt8)) : List UInt8 := [lineFeed].intercalate ls

def moved (ls : List (List UInt8)) : List (List UInt8) := ls.map (margin ++ ·)

theorem lines_singleton (h : l ≠ [] ∧ lineFeed ∉ l) : Lines [l] :=
  ⟨by simp, by simpa using h⟩

theorem Lines.cons (h : l ≠ [] ∧ lineFeed ∉ l) (hs : Lines ls) : Lines (l :: ls) :=
  ⟨by simp, List.forall_mem_cons.mpr ⟨h, hs.each⟩⟩

theorem lineFeed_not_mem_margin : lineFeed ∉ margin := by decide

theorem Lines.moved (h : Lines ls) : Lines (moved ls) := by
  refine ⟨by simpa [Decl.moved] using h.ne_nil, fun text mem => ?_⟩
  obtain ⟨l, hl, rfl⟩ := List.mem_map.mp mem
  simp [(h.each l hl).1, (h.each l hl).2, lineFeed_not_mem_margin]

theorem lines_flatten {lss : List (List (List UInt8))} (ne : lss ≠ []) (h : ∀ ls ∈ lss, Lines ls) :
    Lines lss.flatten := by
  refine ⟨?_, fun l hl => ?_⟩
  · cases lss with
    | nil => exact absurd rfl ne
    | cons ls lss => simp [(h ls List.mem_cons_self).ne_nil]
  · obtain ⟨ls, hls, hl⟩ := List.mem_flatten.mp hl
    exact (h ls hls).each l hl

@[simp] theorem stacked_singleton : stacked [l] = l := by
  simp [stacked]

theorem stacked_cons (h : ls ≠ []) : stacked (l :: ls) = l ++ lineFeed :: stacked ls := by
  simp [stacked, List.intercalate_cons_of_ne_nil h]

theorem stacked_append (h : ls ≠ []) (hu : us ≠ []) :
    stacked (ls ++ us) = stacked ls ++ lineFeed :: stacked us := by
  induction ls with
  | nil => exact absurd rfl h
  | cons l ls ih =>
      by_cases ne : ls = []
      · subst ne
        rw [List.singleton_append, stacked_cons hu]
        simp
      · rw [List.cons_append, stacked_cons (by simp [ne]), stacked_cons ne, ih ne]
        simp

theorem Lines.stacked_ne_nil (h : Lines ls) : stacked ls ≠ [] := by
  obtain ⟨l, us, rfl⟩ := List.exists_cons_of_ne_nil h.ne_nil
  have first := (h.each l List.mem_cons_self).1
  by_cases ne : us = []
  · subst ne
    simpa using first
  · simp [stacked_cons ne]

theorem stacked_flatten {lss : List (List (List UInt8))} (h : ∀ ls ∈ lss, Lines ls) :
    stacked (lss.map stacked) = stacked lss.flatten := by
  induction lss with
  | nil => rfl
  | cons ls lss ih =>
      have rest : ∀ us ∈ lss, Lines us := fun us hu => h us (List.mem_cons_of_mem _ hu)
      by_cases ne : lss = []
      · subst ne
        simp
      · rw [List.map_cons, stacked_cons (by simpa using ne), ih rest, List.flatten_cons,
          stacked_append (h ls List.mem_cons_self).ne_nil (lines_flatten ne rest).ne_nil]

theorem indent_stacked (h : Lines ls) : indent (stacked ls) = stacked (moved ls) := by
  rw [indent, stacked, List.splitOn_intercalate _ (fun l hl => (h.each l hl).2) h.ne_nil]
  have same : ls.map indentLine = moved ls := by
    refine List.map_congr_left fun l hl => ?_
    simp [indentLine, (h.each l hl).1]
  rw [same, stacked]

/-! ## Lines at their place -/

open Printer

theorem line_zero (l : List UInt8) : line 0 l = l ++ [lineFeed] := by
  simp [line, lineFeed]

theorem replicate_succ_level (depth : Nat) : List.replicate (4 * (depth + 1)) (0x20 : UInt8) =
    List.replicate (4 * depth) 0x20 ++ margin := by
  rw [Nat.mul_succ, ← List.replicate_append_replicate]
  rfl

theorem line_succ (depth : Nat) (l : List UInt8) :
    line (depth + 1) l = line depth (margin ++ l) := by
  simp [line, replicate_succ_level]

theorem flatMap_line_moved (depth : Nat) (ls : List (List UInt8)) :
    (moved ls).flatMap (line depth) = ls.flatMap (line (depth + 1)) := by
  simp only [moved, List.flatMap_map, ← line_succ]

theorem stacked_lineFeed (h : ls ≠ []) : stacked ls ++ [lineFeed] = ls.flatMap (line 0) := by
  induction ls with
  | nil => exact absurd rfl h
  | cons l ls ih =>
      by_cases ne : ls = []
      · subst ne
        simp [line_zero]
      · rw [stacked_cons ne, List.flatMap_cons, ← ih ne, line_zero]
        simp

end LittleLang.Decl
