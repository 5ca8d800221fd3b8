import LittleLang.Render.Stylesheet

/-!
# What a stylesheet does not see

If no rule of a sheet tells a node from its image under some map, the sheet writes both alike. A
rule may ask for other nodes, so what it does is compared for sheets that do not tell those apart.
-/

namespace LittleLang

variable {ν : Type} {g : ν → ν} {render : ν → Rendered}

theorem mapM_render_map (same : ∀ n, render (g n) = render n) (ns : List ν) :
    (ns.map g).mapM render = ns.mapM render := by
  rw [List.mapM_map, show render ∘ g = render from funext same]

theorem joined_map (same : ∀ n, render (g n) = render n) (separator : List UInt8) (ns : List ν) :
    joined render separator (ns.map g) = joined render separator ns := by
  rw [joined, joined, mapM_render_map same]

/-- The rule does the same on a node and its image. -/
structure RenderRule.Ignores (rule : RenderRule ν) (g : ν → ν) : Prop where
  applies : ∀ n, rule.applies (g n) = rule.applies n
  render : ∀ {render : ν → Rendered}, (∀ n, render (g n) = render n) →
    ∀ n, rule.render render (g n) = rule.render render n

namespace Stylesheet

variable {sheet : Stylesheet ν}

theorem renderWithin_map (h : ∀ rule ∈ sheet.rules, rule.Ignores g) (depth : Nat) (n : ν) :
    sheet.renderWithin depth (g n) = sheet.renderWithin depth n := by
  induction depth generalizing n with
  | zero => rfl
  | succ depth ih =>
      have firing : sheet.rules.filter (·.applies (g n)) = sheet.rules.filter (·.applies n) :=
        List.filter_congr fun rule mem => (h rule mem).applies n
      rw [renderWithin, renderWithin, firing]
      rw [Outcome.mapM_congr fun rule mem => (h rule (List.mem_filter.mp mem).1).render ih n]

theorem render_map [Branching ν] (h : ∀ rule ∈ sheet.rules, rule.Ignores g)
    (size : ∀ n : ν, Branching.size (g n) = Branching.size n) (n : ν) :
    sheet.render (g n) = sheet.render n := by
  rw [render, render, size, renderWithin_map h]

end Stylesheet

end LittleLang
