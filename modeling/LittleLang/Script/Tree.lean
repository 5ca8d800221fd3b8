import LittleLang.Render.Stylesheet

/-!
Trees whose nodes carry a label of bytes.
-/
namespace LittleLang.Script

/-- A labelled tree. -/
inductive Tree where
  | node (label : List UInt8) (children : List Tree)

namespace Tree

/-- The label of the uppermost node. -/
def label : Tree → List UInt8
  | .node label _ => label

/-- The trees right below the uppermost node. -/
def children : Tree → List Tree
  | .node _ children => children

/-- A tree of one node. -/
def leaf (label : List UInt8) : Tree := .node label []

mutual
/-- The number of nodes. -/
def size : Tree → Nat
  | .node _ children => sizeAll children + 1

/-- The number of nodes of all trees. -/
def sizeAll : List Tree → Nat
  | [] => 0
  | t :: rest => t.size + sizeAll rest
end

theorem size_le_sizeAll {t : Tree} {ts : List Tree} (h : t ∈ ts) : t.size ≤ sizeAll ts := by
  induction ts with
  | nil => cases h
  | cons u ts ih =>
    simp only [sizeAll]
    rcases List.mem_cons.mp h with rfl | h
    · exact Nat.le_add_right _ _
    · exact Nat.le_trans (ih h) (Nat.le_add_left _ _)

theorem size_lt_of_mem_children {child t : Tree} (h : child ∈ t.children) : child.size < t.size := by
  cases t with
  | node label children => exact Nat.lt_succ_of_le (size_le_sizeAll h)

instance : Branching Tree where
  children := children
  size := size
  size_lt := size_lt_of_mem_children

end Tree

end LittleLang.Script
