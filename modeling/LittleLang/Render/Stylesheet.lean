import LittleLang.Failure
import LittleLang.Inspect

/-!
A stylesheet writes trees as bytes. Every rule that applies to a node fires, in the order of the
sheet, and what they write is put together, so that a node can be written in layers.
-/
namespace LittleLang

/-- Why a tree has no bytes. -/
inductive RenderFault where
  /-- The rules that apply to a node wrote nothing, or there were none. -/
  | emptyOutput
  | unexpectedToken
  /-- A fault in the words of a rule. -/
  | saying (text : String)
  deriving DecidableEq

/-- The report of the fault. -/
def RenderFault.message : RenderFault → String
  | .emptyOutput => "no bytes resulted from the transpilation"
  | .unexpectedToken => "unexpected token while rendering"
  | .saying text => text

instance : Inspect RenderFault where
  inspect
    | .emptyOutput => .atom "EmptyOutput"
    | .unexpectedToken => .atom "UnexpectedToken"
    | .saying text => .variant "Message" [inspect text]

/-- Types of trees: a node has children, each of a smaller size. -/
class Branching (ν : Type) where
  children : ν → List ν
  size : ν → Nat
  size_lt : ∀ {child node : ν}, child ∈ children node → size child < size node

/-- What writing a node comes to. -/
abbrev Rendered := Outcome RenderFault (List UInt8)

/-- Writes the nodes that it applies to, with the whole sheet at hand for other nodes. -/
structure RenderRule (ν : Type) where
  applies : ν → Bool
  render : (ν → Rendered) → ν → Rendered

/-- The rules by which trees are written, in their order. -/
structure Stylesheet (ν : Type) where
  rules : List (RenderRule ν)

/-- What the nodes come to in their order, with a separator between them. -/
def joined {ν : Type} (render : ν → Rendered) (separator : List UInt8) (nodes : List ν) : Rendered :=
  (separator.intercalate ·) <$> nodes.mapM render

namespace Stylesheet

variable {ν : Type}

/-- What a node comes to: it must be something. -/
def nonempty : List UInt8 → Rendered
  | [] => Outcome.fault .emptyOutput
  | bytes => .ok bytes

/-- Writes a node, with at most `depth` uses of the sheet inside one another. -/
def renderWithin (sheet : Stylesheet ν) : Nat → ν → Rendered
  | 0, _ => .error .endless
  | depth + 1, node => do
    let layers ← (sheet.rules.filter (·.applies node)).mapM (·.render (sheet.renderWithin depth) node)
    nonempty layers.flatten

variable [Branching ν]

/-- Writes a node. Rules that ask for nothing but what lies below their node never exceed the
depth. -/
def render (sheet : Stylesheet ν) (node : ν) : Rendered :=
  sheet.renderWithin (Branching.size node + 1) node

/-- Writes nodes in their order, with a separator between them. -/
def renderJoined (sheet : Stylesheet ν) (separator : List UInt8) (nodes : List ν) : Rendered :=
  joined sheet.render separator nodes

end Stylesheet

instance {ν : Type} : Inspect (RenderRule ν) := ⟨fun _ => .atom "RenderRule(..)"⟩

instance {ν : Type} : Inspect (Stylesheet ν) where
  inspect sheet := .record "Transpiler" [.field "rules" (inspect sheet.rules)] true

end LittleLang
