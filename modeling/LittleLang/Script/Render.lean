import LittleLang.Script.Tree

/-!
Stylesheets written as data: a rule is a predicate on trees with a list of writings.
-/
namespace LittleLang.Script

/-- A predicate on trees. -/
inductive Predicate where
  | any
  | never
  /-- The tree has no children. -/
  | leaf
  | label (bytes : List UInt8)
  /-- The label begins with the bytes. -/
  | labelBegins (bytes : List UInt8)
  /-- The tree has that many children. -/
  | arity (count : Nat)
  | neg (p : Predicate)
  | conj (ps : List Predicate)

namespace Predicate

mutual
/-- Whether the predicate holds of a tree. -/
def holds (t : Tree) : Predicate → Bool
  | .any => true
  | .never => false
  | .leaf => t.children.isEmpty
  | .label bytes => t.label == bytes
  | .labelBegins bytes => bytes.isPrefixOf t.label
  | .arity count => t.children.length == count
  | .neg p => !p.holds t
  | .conj ps => holdAll t ps

/-- Whether every predicate holds of a tree. -/
def holdAll (t : Tree) : List Predicate → Bool
  | [] => true
  | p :: ps => p.holds t && holdAll t ps
end

end Predicate

/-- One part of what a rule writes. -/
inductive Writing where
  | lit (bytes : List UInt8)
  /-- The label of the tree. -/
  | label
  /-- The child of that index; there must be one. -/
  | child (index : Nat)
  /-- All children, with a separator between them. -/
  | each (separator : List UInt8)
  /-- All children from the last to the first, with a separator between them. -/
  | reversed (separator : List UInt8)
  /-- The child of that index, or the bytes if it cannot be written; there must be one. -/
  | attempt (index : Nat) (fallback : List UInt8)
  | fail (fault : RenderFault)

namespace Writing

/-- The child of that index; there must be one. -/
def childOf (t : Tree) (index : Nat) : Outcome RenderFault Tree :=
  match t.children[index]? with
  | some c => .ok c
  | none => Outcome.fault (.saying s!"missing child {index}")

/-- What the fallback makes of an outcome. -/
def orBytes (fallback : List UInt8) : Rendered → Rendered
  | .error (.raised _) => .ok fallback
  | result => result

/-- The bytes of a writing. -/
def run (render : Tree → Rendered) (t : Tree) : Writing → Rendered
  | .lit bytes => .ok bytes
  | .label => .ok t.label
  | .child index => do render (← childOf t index)
  | .each separator => joined render separator t.children
  | .reversed separator => joined render separator t.children.reverse
  | .attempt index fallback => do orBytes fallback (render (← childOf t index))
  | .fail fault => Outcome.fault fault

end Writing

/-- The rule with the given predicate and writings. -/
def renderRule (predicate : Predicate) (writings : List Writing) : RenderRule Tree where
  applies t := predicate.holds t
  render render t := List.flatten <$> writings.mapM (·.run render t)

/-- The stylesheet with the given predicates and writings. -/
def stylesheet (rules : List (Predicate × List Writing)) : Stylesheet Tree where
  rules := rules.map fun rule => renderRule rule.1 rule.2

end LittleLang.Script
