import LittleLang.Render.Stylesheet

/-!
# One use of a sheet

The rules that apply to a node write its layers. A node is written if each of them succeeds and the
layers together are more than nothing.
-/

namespace LittleLang

open Outcome

/-- The outcome is bytes, and some of them. -/
def Writes (o : Rendered) : Prop := ∃ out, o = .ok out ∧ out ≠ []

theorem writes_ok_iff {bytes : List UInt8} : Writes (.ok bytes) ↔ bytes ≠ [] := by
  constructor
  · rintro ⟨_, ⟨⟩, ne⟩
    exact ne
  · exact fun ne => ⟨bytes, rfl, ne⟩

theorem writes_bind_iff {α : Type} {o : Outcome RenderFault α} {f : α → Rendered} :
    Writes (o >>= f) ↔ ∃ a, o = .ok a ∧ Writes (f a) := by
  simp only [Writes, bind_eq_ok_iff]
  constructor
  · rintro ⟨out, ⟨a, run, written⟩, ne⟩
    exact ⟨a, run, out, written, ne⟩
  · rintro ⟨a, run, out, written, ne⟩
    exact ⟨out, ⟨a, run, written⟩, ne⟩

theorem writes_map_iff {o : Rendered} {f : List UInt8 → List UInt8}
    (ne : ∀ {bytes}, f bytes ≠ [] ↔ bytes ≠ []) : Writes (f <$> o) ↔ Writes o := by
  simp only [Writes, map_eq_ok_iff]
  constructor
  · rintro ⟨_, ⟨bytes, written, rfl⟩, some⟩
    exact ⟨bytes, written, ne.mp some⟩
  · rintro ⟨bytes, written, some⟩
    exact ⟨f bytes, ⟨bytes, written, rfl⟩, ne.mpr some⟩

/-- A rule whose last step adds bytes of its own writes them in any case. -/
theorem writes_bind_pure_iff {α : Type} {o : Outcome RenderFault α} {f : α → List UInt8}
    (ne : ∀ a, f a ≠ []) : Writes (o >>= fun a => pure (f a)) ↔ Succeeds o := by
  rw [writes_bind_iff]
  constructor
  · rintro ⟨a, run, -⟩
    exact ⟨a, run⟩
  · rintro ⟨a, run⟩
    exact ⟨a, run, writes_ok_iff.mpr (ne a)⟩

namespace Stylesheet

variable {ν : Type} {sheet : Stylesheet ν} {n : ν} {depth : Nat} {bytes out : List UInt8}

theorem nonempty_eq_ok_iff : nonempty bytes = .ok out ↔ bytes = out ∧ out ≠ [] := by
  cases bytes with
  | nil => exact iff_of_false nofun fun ⟨empty, ne⟩ => ne empty.symm
  | cons b bytes =>
      constructor
      · rintro ⟨⟩
        exact ⟨rfl, nofun⟩
      · rintro ⟨rfl, -⟩
        rfl

/-- What the sheet writes is the layers of the node put together, and never nothing. -/
theorem renderWithin_eq_ok_iff : sheet.renderWithin (depth + 1) n = .ok out ↔
    out ≠ [] ∧ ∃ layers, (sheet.rules.filter (·.applies n)).mapM
      (·.render (sheet.renderWithin depth) n) = .ok layers ∧ layers.flatten = out := by
  simp only [renderWithin, bind_eq_ok_iff, nonempty_eq_ok_iff]
  constructor
  · rintro ⟨layers, written, whole, ne⟩
    exact ⟨ne, layers, written, whole⟩
  · rintro ⟨ne, layers, written, whole⟩
    exact ⟨layers, written, whole, ne⟩

theorem renderWithin_ne_nil (h : sheet.renderWithin depth n = .ok out) : out ≠ [] := by
  cases depth with
  | zero => cases h
  | succ depth => exact (renderWithin_eq_ok_iff.mp h).1

/-- A node to which one rule applies. -/
theorem succeeds_of_rule {rule : RenderRule ν}
    (rules : sheet.rules.filter (·.applies n) = [rule]) :
    Succeeds (sheet.renderWithin (depth + 1) n) ↔
      Writes (rule.render (sheet.renderWithin depth) n) := by
  simp only [Succeeds, renderWithin_eq_ok_iff, rules, mapM_cons_eq_ok_iff, List.mapM_nil]
  constructor
  · rintro ⟨out, ne, _, ⟨layer, _, written, ⟨⟩, rfl⟩, whole⟩
    exact ⟨out, by rw [written, ← whole]; simp, ne⟩
  · rintro ⟨out, written, ne⟩
    exact ⟨out, ne, [out], ⟨out, [], written, rfl, rfl⟩, by simp⟩

/-- A node that is written in two layers, of which the first is more than nothing. -/
theorem succeeds_of_rules {first second : RenderRule ν}
    (rules : sheet.rules.filter (·.applies n) = [first, second])
    (head_ne : ∀ head, first.render (sheet.renderWithin depth) n = .ok head → head ≠ []) :
    Succeeds (sheet.renderWithin (depth + 1) n) ↔
      Succeeds (first.render (sheet.renderWithin depth) n) ∧
        Succeeds (second.render (sheet.renderWithin depth) n) := by
  simp only [Succeeds, renderWithin_eq_ok_iff, rules, mapM_cons_eq_ok_iff, List.mapM_nil]
  constructor
  · rintro ⟨_, -, _, ⟨head, _, upper, ⟨body, _, lower, -⟩, -⟩, -⟩
    exact ⟨⟨head, upper⟩, body, lower⟩
  · rintro ⟨⟨head, upper⟩, body, lower⟩
    have ne : head ++ body ≠ [] := by simp [head_ne head upper]
    exact ⟨head ++ body, ne, [head, body],
      ⟨head, [body], upper, ⟨body, [], lower, rfl, rfl⟩, rfl⟩, by simp⟩

end Stylesheet

end LittleLang
