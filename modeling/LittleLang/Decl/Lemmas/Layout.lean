import LittleLang.Decl.Stylesheet
import LittleLang.Render.Lemmas.Descent

/-!
The rules of the declaration language's stylesheet ask for nothing but the children of their node.
-/
namespace LittleLang.Decl

open Outcome

variable {render : Node → Rendered} {n : Node}

theorem child_ends (n : Node) (index : Nat) : Ends (child n index) := by
  unfold child
  split
  · exact ends_ok _
  · exact ends_fault _

theorem mem_of_child {index : Nat} {c : Node} (h : child n index = .ok c) : c ∈ n.children := by
  unfold child at h
  split at h
  · rename_i found
    cases h
    exact List.mem_of_getElem? found
  · exact absurd h nofun

theorem suite_ends {children : List Node} (h : ∀ c ∈ children, Ends (render c)) :
    Ends (suite render children) := by
  unfold suite
  split
  · exact ends_ok _
  · exact (joined_ends h).map _

theorem renderBinding_ends (h : ∀ c ∈ n.children, Ends (render c)) :
    Ends (renderBinding render n) :=
  (child_ends n 0).bind fun c hc => (h c (mem_of_child hc)).bind fun _ _ => ends_ok _

theorem renderSignature_ends (h : ∀ c ∈ n.children, Ends (render c)) :
    Ends (renderSignature render n) := by
  refine (child_ends n 0).bind fun c hc => ?_
  refine Ends.bind ?_ fun _ _ => ends_ok _
  unfold renderParams
  split
  · exact ends_ok _
  · exact h c (mem_of_child hc)

theorem renderBody_ends (h : ∀ c ∈ n.children, Ends (render c)) : Ends (renderBody render n) :=
  (child_ends n 1).bind fun c hc => h c (mem_of_child hc)

theorem renderParam_ends (h : ∀ c ∈ n.children, Ends (render c)) : Ends (renderParam render n) := by
  unfold renderParam
  split
  · rename_i c first
    exact (h c (List.mem_of_head? first)).bind fun _ _ => ends_ok _
  · exact ends_ok _

theorem renderBool_ends (n : Node) : Ends (renderBool n) := by
  unfold renderBool
  split
  · exact ends_ok _
  · split
    · exact ends_ok _
    · exact ends_fault _

theorem stylesheet_descends : stylesheet.Descends := by
  intro rule mem render n h
  simp only [stylesheet, List.mem_cons, List.not_mem_nil, or_false] at mem
  rcases mem with rfl | rfl | rfl | rfl | rfl | rfl | rfl | rfl | rfl | rfl | rfl | rfl | rfl
  · exact (ends_mapM h).bind fun _ _ => ends_ok _
  · exact renderBinding_ends h
  · exact renderSignature_ends h
  · exact renderBody_ends h
  · exact suite_ends h
  · exact ends_ok _
  · exact suite_ends h
  · exact joined_ends h
  · exact renderParam_ends h
  · exact (renderBinding_ends h).bind fun _ _ => ends_ok _
  · exact ends_ok _
  · exact ends_ok _
  · exact renderBool_ends n

end LittleLang.Decl
