import LittleLang.Proofs.Print.Theorems
import LittleLang.Proofs.Render.Invariance
import LittleLang.Proofs.Syntax.Relabelling

/-!
# The places of tokens are not written

A rule of the stylesheet does the same on a tree and on the tree with its tokens mapped, if the map
leaves kinds and values as they are and the sheet does the same on the trees that the rule asks for.
-/

namespace LittleLang.Decl

open Printer Syntax

variable {f : Token → Token} {render : Node → Rendered}

/-! ## Rules -/

theorem child_relabel (n : Node) (index : Nat) :
    child (n.relabel f) index = Node.relabel f <$> child n index := by
  rw [child, child, Node.children_relabel, List.getElem?_map, Node.kind_relabel]
  cases n.children[index]? with
  | none => rfl
  | some c => rfl

theorem child_bind_relabel {α : Type} {k k' : Node → Outcome RenderFault α}
    (same : ∀ c, k (c.relabel f) = k' c) (n : Node) (index : Nat) :
    (child (n.relabel f) index >>= k) = child n index >>= k' := by
  rw [child_relabel]
  cases child n index with
  | error failure => rfl
  | ok c => exact same c

theorem receiver_relabel (n args : Node) :
    receiver (n.relabel f) (args.relabel f) = receiver n args := by
  simp only [receiver, Node.kind_relabel, Node.children_relabel, List.isEmpty_map]

theorem renderClassHeader_relabel (hf : KeepsText f) (n : Node) :
    renderClassHeader (n.relabel f) = renderClassHeader n := by
  rw [renderClassHeader, renderClassHeader, Node.value_relabel hf]

theorem renderBool_relabel (hf : KeepsText f) (n : Node) :
    renderBool (n.relabel f) = renderBool n := by
  rw [renderBool, renderBool, Node.value_relabel hf]

section

variable (hr : ∀ n, render (n.relabel f) = render n)
include hr

theorem joined_relabel (separator : List UInt8) (n : Node) :
    joined render separator (n.relabel f).children = joined render separator n.children := by
  rw [Node.children_relabel, joined_map hr]

theorem suite_relabel (n : Node) :
    suite render (n.relabel f).children = suite render n.children := by
  rw [suite, suite, joined_relabel hr, Node.children_relabel, List.isEmpty_map]

theorem renderRoot_relabel (n : Node) : renderRoot render (n.relabel f) = renderRoot render n := by
  rw [renderRoot, renderRoot, Node.children_relabel, mapM_render_map hr]

theorem renderParams_relabel (args : Node) :
    renderParams render (args.relabel f) = renderParams render args := by
  rw [renderParams, renderParams, Node.children_relabel, List.isEmpty_map, hr]

theorem renderBody_relabel (n : Node) : renderBody render (n.relabel f) = renderBody render n :=
  child_bind_relabel hr n 1

variable (hf : KeepsText f)
include hf

theorem renderBinding_relabel (n : Node) :
    renderBinding render (n.relabel f) = renderBinding render n := by
  refine child_bind_relabel (fun c => ?_) n 0
  rw [hr, Node.value_relabel hf]

theorem renderSignature_relabel (n : Node) :
    renderSignature render (n.relabel f) = renderSignature render n := by
  refine child_bind_relabel (fun args => ?_) n 0
  rw [renderParams_relabel hr, receiver_relabel, Node.value_relabel hf]

theorem renderParam_relabel (n : Node) :
    renderParam render (n.relabel f) = renderParam render n := by
  rw [renderParam, renderParam, Node.children_relabel, List.head?_map, Node.value_relabel hf]
  cases n.children.head? with
  | none => rfl
  | some default => simp only [Option.map_some, hr]

theorem renderPrivateField_relabel (n : Node) :
    renderPrivateField render (n.relabel f) = renderPrivateField render n := by
  rw [renderPrivateField, renderPrivateField, renderBinding_relabel hr hf]

end

/-! ## The sheet -/

theorem ignores_onKind {kind : NodeKind} {rule : (Node → Rendered) → Node → Rendered}
    (h : ∀ {render}, (∀ n, render (n.relabel f) = render n) →
      ∀ n, rule render (n.relabel f) = rule render n) :
    (onKind kind rule).Ignores (Node.relabel f) :=
  ⟨fun n => by simp only [onKind, Node.kind_relabel], h⟩

theorem ignores_onCallable {rule : (Node → Rendered) → Node → Rendered}
    (h : ∀ {render}, (∀ n, render (n.relabel f) = render n) →
      ∀ n, rule render (n.relabel f) = rule render n) :
    (onCallable rule).Ignores (Node.relabel f) :=
  ⟨fun n => by simp only [onCallable, Node.kind_relabel], h⟩

theorem stylesheet_ignores (hf : KeepsText f) :
    ∀ rule ∈ stylesheet.rules, rule.Ignores (Node.relabel f) := by
  intro rule mem
  simp only [stylesheet, List.mem_cons, List.not_mem_nil, or_false] at mem
  rcases mem with rfl | rfl | rfl | rfl | rfl | rfl | rfl | rfl | rfl | rfl | rfl | rfl | rfl
  · exact ignores_onKind renderRoot_relabel
  · exact ignores_onKind fun hr => renderBinding_relabel hr hf
  · exact ignores_onCallable fun hr => renderSignature_relabel hr hf
  · exact ignores_onCallable renderBody_relabel
  · exact ignores_onKind suite_relabel
  · exact ignores_onKind fun _ => renderClassHeader_relabel hf
  · exact ignores_onKind suite_relabel
  · exact ignores_onKind fun hr => joined_relabel hr _
  · exact ignores_onKind fun hr => renderParam_relabel hr hf
  · exact ignores_onKind fun hr => renderPrivateField_relabel hr hf
  · exact ignores_onKind fun _ n => by rw [Node.value_relabel hf]
  · exact ignores_onKind fun _ n => by rw [Node.value_relabel hf]
  · exact ignores_onKind fun _ => renderBool_relabel hf

/-- Every tree is written as it is with other places, or fails in the same way. -/
theorem render_relabel (hf : KeepsText f) (n : Node) : Decl.render (n.relabel f) = Decl.render n := by
  have same : language.render (n.relabel f) = language.render n :=
    congrArg (Outcome.mapFault Fault.rendering)
      (Stylesheet.render_map (stylesheet_ignores hf) (Node.size_relabel f) n)
  simp only [Decl.render, same]

/-- The trees of a text and of the same text with other places are printed alike. -/
theorem Syntax.Root.print_relabel (hf : KeepsText f) {ts : List Token} {n : Node} (h : Root ts n)
    (lexed : ∀ t ∈ ts, t.OneLine) :
    (n.relabel f).children.flatMap (print 0) = n.children.flatMap (print 0) := by
  have read : Decl.parse (ts.map f) = .ok (n.relabel f) := by
    rw [parse_map hf, parse_of_ok h.parse]
    rfl
  have lexed' : ∀ t ∈ ts.map f, t.OneLine := by
    intro u mem
    obtain ⟨t, ht, rfl⟩ := List.mem_map.mp mem
    rw [Token.OneLine, (hf t).1, (hf t).2]
    exact lexed t ht
  have written := (root_of_parse read).render_eq lexed'
  rw [render_relabel hf, h.render_eq lexed] at written
  exact (Except.ok.inj written).symm

end LittleLang.Decl
