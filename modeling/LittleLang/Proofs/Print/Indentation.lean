import LittleLang.Proofs.Print.Lemmas.Lines
import LittleLang.Proofs.Text.Splitting
import Mathlib.Logic.Function.Iterate

/-!
# Indented texts

Indenting acts on each line by itself and can be undone, and done several times it moves each line
that is not empty as many levels to the right.
-/

namespace LittleLang.Decl

variable {l : List UInt8}

/-- The text with the first four bytes taken from every line that is not empty. -/
def outdent (body : List UInt8) : List UInt8 :=
  stacked ((body.splitOn lineFeed).map (·.drop 4))

/-- A line as many levels to the right, with four spaces for each. An empty one stays empty. -/
def movedBy (depth : Nat) (l : List UInt8) : List UInt8 :=
  if l = [] then [] else List.replicate (4 * depth) 0x20 ++ l

/-! ## One line -/

theorem indentLine_cons (b : UInt8) (l : List UInt8) : indentLine (b :: l) = margin ++ b :: l := rfl

theorem indentLine_eq_nil_iff : indentLine l = [] ↔ l = [] := by
  cases l with
  | nil => exact iff_of_true rfl rfl
  | cons b l => simp [indentLine_cons]

theorem lineFeed_not_mem_indentLine (h : lineFeed ∉ l) : lineFeed ∉ indentLine l := by
  cases l with
  | nil => exact h
  | cons b l =>
      rw [indentLine_cons, List.mem_append, not_or]
      exact ⟨lineFeed_not_mem_margin, h⟩

theorem drop_indentLine (l : List UInt8) : (indentLine l).drop 4 = l := by
  cases l with
  | nil => rfl
  | cons b l => rfl

theorem movedBy_zero (l : List UInt8) : movedBy 0 l = l := by
  cases l with
  | nil => rfl
  | cons b l => rfl

theorem movedBy_indentLine (depth : Nat) (l : List UInt8) :
    movedBy depth (indentLine l) = movedBy (depth + 1) l := by
  cases l with
  | nil => rfl
  | cons b l => simp [movedBy, indentLine_cons, replicate_succ_level]

/-! ## All lines -/

theorem splitOn_indent (body : List UInt8) :
    (indent body).splitOn lineFeed = (body.splitOn lineFeed).map indentLine := by
  refine List.splitOn_intercalate lineFeed (fun l mem => ?_) (by simp)
  obtain ⟨line, inside, rfl⟩ := List.mem_map.mp mem
  exact lineFeed_not_mem_indentLine (not_mem_of_mem_splitOn inside)

theorem indent_append (x y : List UInt8) :
    indent (x ++ lineFeed :: y) = indent x ++ lineFeed :: indent y := by
  rw [indent, List.splitOn_append_cons_self, List.map_append]
  exact stacked_append (by simp) (by simp)

theorem count_lineFeed_indent (body : List UInt8) :
    (indent body).count lineFeed = body.count lineFeed := by
  have same : ((indent body).splitOn lineFeed).length = (body.splitOn lineFeed).length := by
    rw [splitOn_indent, List.length_map]
  rw [length_splitOn, length_splitOn] at same
  exact Nat.succ.inj same

theorem getElem?_splitOn_indent_eq_nil_iff (body : List UInt8) (i : Nat) :
    ((indent body).splitOn lineFeed)[i]? = some [] ↔ (body.splitOn lineFeed)[i]? = some [] := by
  rw [splitOn_indent, List.getElem?_map, Option.map_eq_some_iff]
  simp [indentLine_eq_nil_iff]

theorem outdent_indent (body : List UInt8) : outdent (indent body) = body := by
  have same : (·.drop 4) ∘ indentLine = id := funext drop_indentLine
  rw [outdent, splitOn_indent, List.map_map, same, List.map_id]
  exact List.intercalate_splitOn lineFeed

theorem indent_injective : Function.Injective indent :=
  Function.LeftInverse.injective outdent_indent

theorem splitOn_iterate_indent (depth : Nat) (body : List UInt8) :
    (indent^[depth] body).splitOn lineFeed = (body.splitOn lineFeed).map (movedBy depth) := by
  induction depth generalizing body with
  | zero =>
      have same : movedBy 0 = id := funext movedBy_zero
      rw [same, List.map_id]
      rfl
  | succ depth ih =>
      have same : movedBy depth ∘ indentLine = movedBy (depth + 1) :=
        funext (movedBy_indentLine depth)
      rw [Function.iterate_succ_apply, ih, splitOn_indent, List.map_map, same]

/-- Indenting acts on the lines of a text: on a text and another below it separately, with as many
line feeds as before and with the same lines empty. Four bytes less on every line give the text back,
so no two texts are indented to the same. Indented several times, a text has the lines it had, each
behind four spaces for every time if it is not empty. -/
theorem indent_linewise (x y : List UInt8) (depth : Nat) :
    indent (x ++ lineFeed :: y) = indent x ++ lineFeed :: indent y ∧
      (indent x).count lineFeed = x.count lineFeed ∧
      (∀ i : Nat, ((indent x).splitOn lineFeed)[i]? = some [] ↔
        (x.splitOn lineFeed)[i]? = some []) ∧
      outdent (indent x) = x ∧
      Function.Injective indent ∧
      indent^[depth] x = stacked ((x.splitOn lineFeed).map (movedBy depth)) := by
  refine ⟨indent_append x y, count_lineFeed_indent x, getElem?_splitOn_indent_eq_nil_iff x,
    outdent_indent x, indent_injective, ?_⟩
  rw [← splitOn_iterate_indent]
  exact (List.intercalate_splitOn lineFeed).symm

example : indent (indent (ascii "a\n\nb\n")) = ascii "        a\n\n        b\n" := by decide

end LittleLang.Decl
