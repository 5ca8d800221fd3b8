import LittleLang.Render.Stylesheet

/-!
Stylesheets whose rules ask for nothing but the children of their node come to an end on every
tree.
-/
namespace LittleLang

variable {ν : Type}

theorem joined_ends {render : ν → Rendered} {separator : List UInt8} {nodes : List ν}
    (h : ∀ n ∈ nodes, Outcome.Ends (render n)) : Outcome.Ends (joined render separator nodes) :=
  (Outcome.ends_mapM h).map _

namespace Stylesheet

/-- A rule comes to an end on a node if the sheet does so on its children. -/
def Descends [Branching ν] (sheet : Stylesheet ν) : Prop :=
  ∀ rule ∈ sheet.rules, ∀ (render : ν → Rendered) (n : ν),
    (∀ child ∈ Branching.children n, Outcome.Ends (render child)) →
      Outcome.Ends (rule.render render n)

theorem nonempty_ends (bytes : List UInt8) : Outcome.Ends (nonempty bytes) := by
  cases bytes with
  | nil => exact Outcome.ends_fault _
  | cons b bytes => exact Outcome.ends_ok _

variable [Branching ν]

theorem renderWithin_ends {sheet : Stylesheet ν} (h : sheet.Descends) {depth : Nat} {n : ν}
    (enough : Branching.size n < depth) : Outcome.Ends (sheet.renderWithin depth n) := by
  induction depth generalizing n with
  | zero => exact absurd enough (Nat.not_lt_zero _)
  | succ depth ih =>
    refine (Outcome.ends_mapM fun rule mem => ?_).bind fun layers _ => nonempty_ends _
    refine h rule (List.mem_filter.mp mem).1 _ n fun child below => ih ?_
    exact Nat.lt_of_lt_of_le (Branching.size_lt below) (Nat.le_of_lt_succ enough)

theorem render_ends {sheet : Stylesheet ν} (h : sheet.Descends) (n : ν) :
    Outcome.Ends (sheet.render n) := renderWithin_ends h (Nat.lt_succ_self _)

end Stylesheet

end LittleLang
