import LittleLang.Byte.Class
import LittleLang.Proofs.Render.Descendants

/-!
# Where the order of the rules counts

The rules that apply to a node write their layers in the order of the sheet. Rules that never apply to
the same node of a tree may stand in any order, and a rule that applies to none may as well be missing.
-/

namespace LittleLang

open Branching

variable {ν : Type}

namespace Stylesheet

section

variable {before after : List (RenderRule ν)} {first second rule : RenderRule ν} {n : ν}

theorem filter_swap (apart : ¬ (first.applies n = true ∧ second.applies n = true)) :
    (before ++ first :: second :: after).filter (·.applies n) =
      (before ++ second :: first :: after).filter (·.applies n) := by
  simp only [List.filter_append, List.filter_cons]
  cases hfirst : first.applies n with
  | false => rfl
  | true =>
      have hsecond : second.applies n = false := by simpa [hfirst] using apart
      rw [hsecond]
      rfl

theorem filter_drop (never : rule.applies n = false) :
    (before ++ rule :: after).filter (·.applies n) = (before ++ after).filter (·.applies n) := by
  simp only [List.filter_append, List.filter_cons, never]
  rfl

end

variable [Branching ν] {sheet other : Stylesheet ν} {root : ν}

/-- The sheets come to the same on the tree, whatever depth of uses inside one another they have. -/
def RenderAlike (sheet other : Stylesheet ν) (root : ν) : Prop :=
  sheet.render root = other.render root ∧
    ∀ depth, sheet.renderWithin depth root = other.renderWithin depth root

theorem renderWithin_eq_of_filter (looks : other.LooksBelow)
    (same : ∀ n, Within n root →
      sheet.rules.filter (·.applies n) = other.rules.filter (·.applies n)) (depth : Nat) :
    sheet.renderWithin depth root = other.renderWithin depth root := by
  induction depth generalizing root with
  | zero => rfl
  | succ depth ih =>
      have handles : ∀ d, Below d root → sheet.renderWithin depth d = other.renderWithin depth d :=
        fun d below => ih fun n inside => same n (inside.trans (below.within .rfl))
      rw [renderWithin_succ, renderWithin_succ, ← looks.renderOnce_congr handles, renderOnce,
        renderOnce, same root .rfl]

theorem renderAlike_of_filter (looks : other.LooksBelow)
    (same : ∀ n, Within n root →
      sheet.rules.filter (·.applies n) = other.rules.filter (·.applies n)) :
    sheet.RenderAlike other root :=
  ⟨renderWithin_eq_of_filter looks same _, renderWithin_eq_of_filter looks same⟩

/-- If the rules ask for nothing but what lies below their nodes, the order of two neighbours is seen
only on trees with a node to which both apply, and whether a rule is in the sheet only on trees with a
node to which it applies. -/
theorem order_counts_where_both_apply (root : ν) :
    (∀ (before after : List (RenderRule ν)) (first second : RenderRule ν),
      (∀ rule ∈ before ++ first :: second :: after, rule.LooksBelow) →
      (∀ n, Within n root → ¬ (first.applies n = true ∧ second.applies n = true)) →
      RenderAlike ⟨before ++ first :: second :: after⟩ ⟨before ++ second :: first :: after⟩ root) ∧
    ∀ (before after : List (RenderRule ν)) (rule : RenderRule ν),
      (∀ other ∈ before ++ after, other.LooksBelow) →
      (∀ n, Within n root → rule.applies n = false) →
      RenderAlike ⟨before ++ rule :: after⟩ ⟨before ++ after⟩ root := by
  refine ⟨fun before after first second looks apart => ?_, fun before after rule looks never => ?_⟩
  · refine renderAlike_of_filter (fun rule mem => looks rule ?_) fun n inside =>
      filter_swap (apart n inside)
    simpa [or_left_comm] using mem
  · exact renderAlike_of_filter looks fun n inside => filter_drop (never n inside)

/-- A node labelled as a sum that had no children would be written by two of the rules. In this tree
there is none, and there is no product. -/
theorem order_counts_where_both_apply_in_sum :
    let sum := Script.renderRule (.label (ascii "sum")) [.each (ascii "+")]
    let product := Script.renderRule (.label (ascii "product")) [.each (ascii "*")]
    let number := Script.renderRule .leaf [.label]
    let inner : Script.Tree := .node (ascii "sum") [.leaf (ascii "2"), .leaf (ascii "3")]
    let tree : Script.Tree := .node (ascii "sum") [.leaf (ascii "1"), inner]
    (∀ n, Within n tree → ¬ (sum.applies n = true ∧ number.applies n = true)) ∧
      (∀ n, Within n tree → product.applies n = false) ∧
      RenderAlike ⟨[sum, number]⟩ ⟨[number, sum]⟩ tree ∧
      RenderAlike ⟨[number, product, sum]⟩ ⟨[number, sum]⟩ tree ∧
      render ⟨[number, sum]⟩ tree = .ok (ascii "1+2+3") := by
  intro sum product number inner tree
  have looks : ∀ rule ∈ [sum, number], rule.LooksBelow := by
    simp [sum, number, Script.renderRule_looksBelow]
  have looks' : ∀ rule ∈ [number, sum], rule.LooksBelow := by simpa [or_comm] using looks
  have leaf {P : Script.Tree → Prop} {label : List UInt8} (h : P (.leaf label)) :
      ∀ n, Within n (Script.Tree.leaf label) → P n := forall_within_iff.mpr ⟨h, nofun⟩
  have nodes {P : Script.Tree → Prop} (top : P tree) (below : P inner)
      (leaves : ∀ label ∈ [ascii "1", ascii "2", ascii "3"], P (.leaf label)) :
      ∀ n, Within n tree → P n := by
    simp only [List.forall_mem_cons] at leaves
    obtain ⟨one, two, three, -⟩ := leaves
    have inside : ∀ n, Within n inner → P n := forall_within_iff.mpr
      ⟨below, List.forall_mem_cons.mpr ⟨leaf two, List.forall_mem_singleton.mpr (leaf three)⟩⟩
    exact forall_within_iff.mpr
      ⟨top, List.forall_mem_cons.mpr ⟨leaf one, List.forall_mem_singleton.mpr inside⟩⟩
  have apart := nodes (P := fun n => ¬ (sum.applies n = true ∧ number.applies n = true))
    (by decide) (by decide) (by decide)
  have never := nodes (P := fun n => product.applies n = false) rfl rfl (by decide)
  obtain ⟨swap, drop⟩ := order_counts_where_both_apply tree
  exact ⟨apart, never, swap [] [] sum number looks apart,
    drop [number] [sum] product looks' never, rfl⟩

end Stylesheet

end LittleLang
