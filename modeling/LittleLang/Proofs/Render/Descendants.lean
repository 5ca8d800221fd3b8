import LittleLang.Script.Render
import Mathlib.Logic.Relation

/-!
# Sheets that look below their nodes

A rule has the whole sheet at hand. If it asks for nothing but what lies below its node, the size of a
tree bounds the uses of the sheet inside one another, and rendering is the recursion that the rules
describe.
-/

namespace LittleLang

/-! ## The nodes of a tree -/

namespace Branching

variable {ν : Type} [Branching ν] {c d n root : ν}

/-- The first node is one of the tree of the second: it is that node itself or lies below it. -/
def Within : ν → ν → Prop := Relation.ReflTransGen fun child node => child ∈ children node

/-- The first node lies below the second. -/
def Below : ν → ν → Prop := Relation.TransGen fun child node => child ∈ children node

theorem Within.rfl : Within n n := .refl

theorem Below.of_child (mem : c ∈ children n) : Below c n := .single mem

theorem Below.within (h : Below d n) (inside : Within n root) : Within d root :=
  h.to_reflTransGen.trans inside

theorem Below.size_lt (h : Below d n) : size d < size n := by
  induction h with
  | single mem => exact Branching.size_lt mem
  | tail _ mem ih => exact Nat.lt_trans ih (Branching.size_lt mem)

theorem within_iff : Within d n ↔ d = n ∨ ∃ c ∈ children n, Within d c := by
  rw [Within, Relation.ReflTransGen.cases_tail_iff]
  constructor
  · rintro (rfl | ⟨c, inside, mem⟩)
    · exact .inl rfl
    · exact .inr ⟨c, mem, inside⟩
  · rintro (rfl | ⟨c, mem, inside⟩)
    · exact .inl rfl
    · exact .inr ⟨c, inside, mem⟩

/-- What is to be said of every node of a tree, by recursion on the tree. -/
theorem forall_within_iff {P : ν → Prop} :
    (∀ d, Within d n → P d) ↔ P n ∧ ∀ c ∈ children n, ∀ d, Within d c → P d := by
  simp only [within_iff (n := n), or_imp, forall_and, forall_eq, forall_exists_index, and_imp]
  exact and_congr_right fun _ => ⟨fun h c mem d inside => h d c mem inside,
    fun h d c mem inside => h c mem d inside⟩

end Branching

/-! ## Rules -/

open Branching

theorem joined_congr {ν : Type} {f g : ν → Rendered} {separator : List UInt8} {ns : List ν}
    (same : ∀ n ∈ ns, f n = g n) : joined f separator ns = joined g separator ns := by
  rw [joined, joined, Outcome.mapM_congr same]

variable {ν : Type} [Branching ν]

/-- What the rule makes of a node is settled by what the nodes below it come to. -/
def RenderRule.LooksBelow (rule : RenderRule ν) : Prop :=
  ∀ (n : ν) (f g : ν → Rendered), (∀ d, Below d n → f d = g d) → rule.render f n = rule.render g n

namespace Stylesheet

variable {sheet : Stylesheet ν} {n : ν} {depth more : Nat}

/-- So does every rule of the sheet. -/
def LooksBelow (sheet : Stylesheet ν) : Prop := ∀ rule ∈ sheet.rules, rule.LooksBelow

/-- One use of the sheet, with `handle` for the nodes that the rules ask for. -/
def renderOnce {ν : Type} (sheet : Stylesheet ν) (handle : ν → Rendered) (n : ν) : Rendered := do
  let layers ← (sheet.rules.filter (·.applies n)).mapM (·.render handle n)
  nonempty layers.flatten

theorem renderWithin_succ {ν : Type} (sheet : Stylesheet ν) (depth : Nat) (n : ν) :
    sheet.renderWithin (depth + 1) n = sheet.renderOnce (sheet.renderWithin depth) n := rfl

theorem LooksBelow.renderOnce_congr (looks : sheet.LooksBelow) {f g : ν → Rendered}
    (same : ∀ d, Below d n → f d = g d) : sheet.renderOnce f n = sheet.renderOnce g n := by
  rw [renderOnce, renderOnce, Outcome.mapM_congr fun rule mem => ?_]
  exact looks rule (List.mem_filter.mp mem).1 n f g same

/-- Depth that is left over changes nothing. -/
theorem LooksBelow.renderWithin_eq (looks : sheet.LooksBelow) (enough : size n < depth)
    (enough' : size n < more) : sheet.renderWithin depth n = sheet.renderWithin more n := by
  induction depth generalizing n more with
  | zero => exact absurd enough (Nat.not_lt_zero _)
  | succ depth ih =>
      cases more with
      | zero => exact absurd enough' (Nat.not_lt_zero _)
      | succ more =>
          rw [renderWithin_succ, renderWithin_succ]
          refine looks.renderOnce_congr fun d below => ih ?_ ?_
          · exact Nat.lt_of_lt_of_le below.size_lt (Nat.le_of_lt_succ enough)
          · exact Nat.lt_of_lt_of_le below.size_lt (Nat.le_of_lt_succ enough')

/-- The recursion that the rules describe. -/
theorem LooksBelow.render_eq (looks : sheet.LooksBelow) (n : ν) :
    sheet.render n = sheet.renderOnce sheet.render n := by
  rw [render, renderWithin_succ]
  exact looks.renderOnce_congr fun d below =>
    looks.renderWithin_eq below.size_lt (Nat.lt_succ_self _)

end Stylesheet

/-! ## Sheets of writings -/

namespace Script

variable {t : Tree} {f g : Tree → Rendered}

theorem childOf_bind_congr (same : ∀ c ∈ t.children, f c = g c) (index : Nat) :
    (Writing.childOf t index >>= f) = Writing.childOf t index >>= g := by
  rw [Writing.childOf]
  cases found : t.children[index]? with
  | none => rfl
  | some c => exact same c (List.mem_of_getElem? found)

theorem Writing.run_congr (same : ∀ c ∈ t.children, f c = g c) (writing : Writing) :
    writing.run f t = writing.run g t := by
  cases writing with
  | lit bytes => rfl
  | label => rfl
  | child index => exact childOf_bind_congr same index
  | each separator => exact joined_congr same
  | reversed separator => exact joined_congr fun c mem => same c (List.mem_reverse.mp mem)
  | attempt index fallback =>
      exact childOf_bind_congr (fun c mem => congrArg (orBytes fallback) (same c mem)) index
  | fail fault => rfl

theorem renderRule_looksBelow (predicate : Predicate) (writings : List Writing) :
    (renderRule predicate writings).LooksBelow := by
  intro t f g same
  have children : ∀ c ∈ t.children, f c = g c := fun c mem => same c (.of_child mem)
  exact congrArg (List.flatten <$> ·)
    (Outcome.mapM_congr fun writing _ => writing.run_congr children)

theorem stylesheet_looksBelow (rules : List (Predicate × List Writing)) :
    (stylesheet rules).LooksBelow := by
  intro rule mem
  obtain ⟨entry, -, rfl⟩ := List.mem_map.mp mem
  exact renderRule_looksBelow entry.1 entry.2

end Script

end LittleLang
