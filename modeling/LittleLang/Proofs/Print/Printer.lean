import LittleLang.Decl.Node

/-!
# A printer that knows how deep it stands

Each line is written once, at its place, with four spaces for each level and a line feed at its
end.
-/

namespace LittleLang.Decl.Printer

/-- A byte of a string: the bytes that would end the line are written as two. -/
def escaped (b : UInt8) : List UInt8 :=
  if b = 0x0A then ascii "\\n" else if b = 0x0D then ascii "\\r" else [b]

def literalText (v : Node) : List UInt8 :=
  match v.kind with
  | .numberLiteral => v.value
  | .boolLiteral => if v.value = ascii "true" then ascii "True" else ascii "False"
  | .stringLiteral => ascii "\"" ++ v.value.flatMap escaped ++ ascii "\""
  | _ => []

@[simp] theorem literalText_number (t : Token) :
    literalText (.named .numberLiteral t []) = t.value := rfl

@[simp] theorem literalText_bool (t : Token) : literalText (.named .boolLiteral t []) =
    if t.value = ascii "true" then ascii "True" else ascii "False" := rfl

@[simp] theorem literalText_string (t : Token) : literalText (.named .stringLiteral t []) =
    ascii "\"" ++ t.value.flatMap escaped ++ ascii "\"" := rfl

/-- `NAME = lit` -/
def bindingText (name : Token) (v : Node) : List UInt8 := name.value ++ ascii " = " ++ literalText v

/-- `NAME` or `NAME=lit` -/
def paramText (p : Node) : List UInt8 :=
  match p.children with
  | [] => p.value
  | default :: _ => p.value ++ ascii "=" ++ literalText default

/-- `def NAME(p1, ..., pk):` -/
def signature (name : Token) (params : List (List UInt8)) : List UInt8 :=
  ascii "def " ++ name.value ++ ascii "(" ++ (ascii ", ").intercalate params ++ ascii "):"

/-- `class NAME:` -/
def classHeader (name : Token) : List UInt8 := ascii "class " ++ name.value ++ ascii ":"

def line (depth : Nat) (text : List UInt8) : List UInt8 :=
  List.replicate (4 * depth) 0x20 ++ text ++ [0x0A]

mutual
/-- A declaration, a member or a block. -/
def print (depth : Nat) : Node → List UInt8
  | .node .varDeclaration (some name) [v] => line depth (bindingText name v)
  | .node .funcDeclaration (some name) [args, body] =>
    line depth (signature name (args.children.map paramText)) ++ print (depth + 1) body
  | .node .classDeclaration (some name) members =>
    line depth (classHeader name) ++ printSuite (depth + 1) members
  | .node .privateField (some name) [v] => line depth (ascii "__" ++ bindingText name v)
  | .node .method (some name) [args, body] =>
    line depth (signature name (ascii "self" :: args.children.map paramText)) ++
      print (depth + 1) body
  | .node .block none declarations => printSuite depth declarations
  | _ => []

/-- What stands in a block or class, or `pass` if nothing does. -/
def printSuite (depth : Nat) : List Node → List UInt8
  | [] => line depth (ascii "pass")
  | n :: ns => print depth n ++ printAll depth ns

def printAll (depth : Nat) : List Node → List UInt8
  | [] => []
  | n :: ns => print depth n ++ printAll depth ns
end

theorem printAll_eq_flatMap (depth : Nat) (ns : List Node) :
    printAll depth ns = ns.flatMap (print depth) := by
  induction ns with
  | nil => rfl
  | cons n ns ih => rw [printAll, ih, List.flatMap_cons]

theorem printSuite_eq_printAll {depth : Nat} {ns : List Node} (h : ns ≠ []) :
    printSuite depth ns = printAll depth ns := by
  cases ns with
  | nil => exact absurd rfl h
  | cons n ns => rfl

example : print 0 (.named .classDeclaration ⟨.word, ascii "C", 1, 7⟩
    [.named .method ⟨.word, ascii "m", 1, 11⟩ [.plain .args [], .plain .block []]]) =
      ascii "class C:\n    def m(self):\n        pass\n" := by decide

end LittleLang.Decl.Printer
