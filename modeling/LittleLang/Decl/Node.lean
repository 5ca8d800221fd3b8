import LittleLang.Decl.Token
import LittleLang.Render.Stylesheet

/-!
The syntax trees of the declaration language.
-/
namespace LittleLang.Decl

/-- The kinds of nodes. -/
inductive NodeKind where
  | root
  | varDeclaration
  | funcDeclaration
  | classDeclaration
  | args
  | param
  | block
  | privateField
  | method
  | numberLiteral
  | stringLiteral
  | boolLiteral
  deriving DecidableEq

namespace NodeKind

/-- All kinds. -/
def all : List NodeKind :=
  [root, varDeclaration, funcDeclaration, classDeclaration, args, param, block, privateField,
    method, numberLiteral, stringLiteral, boolLiteral]

/-- The name of the kind in reports. -/
def name : NodeKind → String
  | root => "Root"
  | varDeclaration => "VarDeclaration"
  | funcDeclaration => "FuncDeclaration"
  | classDeclaration => "ClassDeclaration"
  | args => "Args"
  | param => "Param"
  | block => "Block"
  | privateField => "PrivateField"
  | method => "Method"
  | numberLiteral => "NumberLiteral"
  | stringLiteral => "StringLiteral"
  | boolLiteral => "BoolLiteral"

end NodeKind

instance : Inspect NodeKind := ⟨fun k => .atom k.name⟩

/-- A syntax tree. The token is the name of a declaration or parameter and the spelling of a
literal. -/
inductive Node where
  | node (kind : NodeKind) (token? : Option Token) (children : List Node)

namespace Node

/-- The kind of the uppermost node. -/
def kind : Node → NodeKind
  | .node kind _ _ => kind

/-- The token of the uppermost node. -/
def token? : Node → Option Token
  | .node _ token? _ => token?

/-- The trees right below the uppermost node. -/
def children : Node → List Node
  | .node _ _ children => children

/-- The bytes of the node's token, none if it has no token. -/
def value (n : Node) : List UInt8 :=
  match n.token? with
  | some t => t.value
  | none => []

/-- A tree whose uppermost node has a token. -/
def named (kind : NodeKind) (token : Token) (children : List Node) : Node :=
  .node kind (some token) children

/-- A tree whose uppermost node has no token. -/
def plain (kind : NodeKind) (children : List Node) : Node :=
  .node kind none children

mutual
/-- The number of nodes. -/
def size : Node → Nat
  | .node _ _ children => sizeAll children + 1

/-- The number of nodes of all trees. -/
def sizeAll : List Node → Nat
  | [] => 0
  | n :: rest => n.size + sizeAll rest
end

theorem size_le_sizeAll {n : Node} {ns : List Node} (h : n ∈ ns) : n.size ≤ sizeAll ns := by
  induction ns with
  | nil => cases h
  | cons m ns ih =>
    simp only [sizeAll]
    rcases List.mem_cons.mp h with rfl | h
    · exact Nat.le_add_right _ _
    · exact Nat.le_trans (ih h) (Nat.le_add_left _ _)

theorem size_lt_of_mem_children {child n : Node} (h : child ∈ n.children) : child.size < n.size := by
  cases n with
  | node kind token? children => exact Nat.lt_succ_of_le (size_le_sizeAll h)

instance : Branching Node where
  children := children
  size := size
  size_lt := size_lt_of_mem_children

mutual
/-- The structure that a tree shows. -/
def shown : Node → Shown
  | .node kind token? children =>
    .record "Node"
      [.field "kind" (inspect kind), .field "token" (inspect token?),
        .field "children" (.list (shownAll children))] true

/-- The structures that trees show. -/
def shownAll : List Node → List Shown
  | [] => []
  | n :: rest => n.shown :: shownAll rest
end

instance : Inspect Node := ⟨shown⟩

end Node

end LittleLang.Decl
