import LittleLang.Decl.Node

/-!
How trees of the declaration language are written as Python. Functions, methods and classes are
written in two layers: one rule writes the header line, a later one the indented body.
-/
namespace LittleLang.Decl

/-- The line feed. -/
def lineFeed : UInt8 := 0x0A

/-- The space in front of an indented line. -/
def margin : List UInt8 := ascii "    "

/-- One line, moved right unless it is empty. -/
def indentLine (line : List UInt8) : List UInt8 :=
  if line.isEmpty then [] else margin ++ line

/-- Every line that is not empty, moved right. -/
def indent (body : List UInt8) : List UInt8 :=
  [lineFeed].intercalate ((body.splitOn lineFeed).map indentLine)

/-- What the children of a class or block come to: one below the other and indented, or a
placeholder if there are none. -/
def suite (render : Node → Rendered) (children : List Node) : Rendered :=
  if children.isEmpty then .ok (indent (ascii "pass"))
  else indent <$> joined render [lineFeed] children

/-- The child of that index; there must be one. -/
def child (n : Node) (index : Nat) : Outcome RenderFault Node :=
  match n.children[index]? with
  | some c => .ok c
  | none => Outcome.fault (.saying s!"{n.kind.name} node is missing child {index}")

/-- Every declaration with a line end after it. -/
def renderRoot (render : Node → Rendered) (n : Node) : Rendered := do
  let lines ← n.children.mapM render
  return (lines.map (· ++ [lineFeed])).flatten

/-- A name, an equality sign and a value. -/
def renderBinding (render : Node → Rendered) (n : Node) : Rendered := do
  let value ← render (← child n 0)
  return n.value ++ ascii " = " ++ value

/-- What stands before the parameters: a method takes itself first. -/
def receiver (n args : Node) : List UInt8 :=
  if n.kind = .method then ascii (if args.children.isEmpty then "self" else "self, ") else []

/-- The parameters. A list without any would be written as nothing, which is a fault. -/
def renderParams (render : Node → Rendered) (args : Node) : Rendered :=
  if args.children.isEmpty then .ok [] else render args

/-- The header of a function or method. -/
def renderSignature (render : Node → Rendered) (n : Node) : Rendered := do
  let args ← child n 0
  let params ← renderParams render args
  return ascii "def " ++ n.value ++ ascii "(" ++ receiver n args ++ params ++ ascii "):\n"

/-- The body of a function or method. -/
def renderBody (render : Node → Rendered) (n : Node) : Rendered := do
  render (← child n 1)

/-- The header of a class. -/
def renderClassHeader (n : Node) : Rendered :=
  .ok (ascii "class " ++ n.value ++ ascii ":\n")

/-- A parameter, with its default value if it has one. -/
def renderParam (render : Node → Rendered) (n : Node) : Rendered := do
  match n.children.head? with
  | some default => return n.value ++ ascii "=" ++ (← render default)
  | none => return n.value

/-- A private field: two underscores make the name private. -/
def renderPrivateField (render : Node → Rendered) (n : Node) : Rendered := do
  return ascii "__" ++ (← renderBinding render n)

/-- How a byte is written within a string: line ends would break the line of the string. -/
def escapeByte (b : UInt8) : List UInt8 :=
  if b = 0x0A then ascii "\\n" else if b = 0x0D then ascii "\\r" else [b]

/-- A string between double quotes. -/
def quotedBytes (value : List UInt8) : List UInt8 :=
  ascii "\"" ++ value.flatMap escapeByte ++ ascii "\""

/-- A truth value. -/
def renderBool (n : Node) : Rendered :=
  if n.value = ascii "true" then .ok (ascii "True")
  else if n.value = ascii "false" then .ok (ascii "False")
  else Outcome.fault .unexpectedToken

/-- A rule for the nodes of one kind. -/
def onKind (kind : NodeKind) (render : (Node → Rendered) → Node → Rendered) : RenderRule Node :=
  ⟨fun n => n.kind == kind, render⟩

/-- A rule for functions and methods. -/
def onCallable (render : (Node → Rendered) → Node → Rendered) : RenderRule Node :=
  ⟨fun n => n.kind == .funcDeclaration || n.kind == .method, render⟩

/-- The rules by which declarations are written as Python. -/
def stylesheet : Stylesheet Node where
  rules := [
    onKind .root renderRoot,
    onKind .varDeclaration renderBinding,
    onCallable renderSignature,
    onCallable renderBody,
    onKind .block fun render n => suite render n.children,
    onKind .classDeclaration fun _ n => renderClassHeader n,
    onKind .classDeclaration fun render n => suite render n.children,
    onKind .args fun render n => joined render (ascii ", ") n.children,
    onKind .param renderParam,
    onKind .privateField renderPrivateField,
    onKind .numberLiteral fun _ n => .ok n.value,
    onKind .stringLiteral fun _ n => .ok (quotedBytes n.value),
    onKind .boolLiteral fun _ n => renderBool n]

end LittleLang.Decl
