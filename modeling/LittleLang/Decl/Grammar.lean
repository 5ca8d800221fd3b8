import LittleLang.Decl.Node
import LittleLang.Parse.Grammar

/-!
The grammar of the declaration language:

    root        := declaration+
    declaration := ("let" | "var" | "const") NAME "=" value
                 | "function" NAME args block
                 | "class" NAME "{" member* "}"
    member      := "#" NAME "=" value
                 | NAME args block
    args        := "(" [param ("," param)*] ")"
    param       := NAME ["=" value]
    block       := "{" declaration* "}"
    value       := NUM | STR | "true" | "false"

A name is any word.
-/
namespace LittleLang.Decl

/-- A program that reads tokens of the declaration language. -/
abbrev Parse := ParseM Token

/-- A rule of the grammar. -/
abbrev Rule := GrammarRule Token Node

/-- The loaded token; there must be one. -/
def current : Parse Token := do
  match ← ParseM.look TokenStream.token? with
  | some t => return t
  | none => ParseM.raise .invalidSyntax

/-- Whether the loaded token is of the given kind. -/
def standsAt (kind : TokenKind) (s : TokenStream Token) : Bool :=
  match s.token? with
  | some t => t.kind == kind
  | none => false

/-- Reads a token of the given kind; there must be one. -/
def expect (kind : TokenKind) : Parse Token := do
  let t ← current
  if t.kind = kind then
    ParseM.advance
    return t
  else
    ParseM.raise .invalidSyntax

/-- Reads what `body` reads up to a closing brace or the end. -/
def untilBrace (body : Parse Node) : Parse (List Node) :=
  ParseM.collectWhile (fun s => s.hasTokens && !standsAt .rightBrace s) body

/-- Reads a name, an equality sign and a value. -/
def binding (kind : NodeKind) (call : RuleCall Token Node) : Parse Node := do
  let name ← expect .word
  let _ ← expect .eql
  let value ← call "value"
  return .named kind name [value]

/-- Reads the arguments and the block of a function or method. -/
def callable (kind : NodeKind) (name : Token) (call : RuleCall Token Node) : Parse Node := do
  let args ← call "args"
  let block ← call "block"
  return .named kind name [args, block]

/-- Reads declarations to the end. Each must begin with a word. -/
def root : Rule := fun call => do
  let declarations ← ParseM.collectWhile TokenStream.hasTokens do
    if ← ParseM.look (standsAt .word) then call "declaration" else ParseM.raise .invalidSyntax
  return .plain .root declarations

/-- Whether the token is a word that begins the declaration of a variable. -/
def isBindingWord (t : Token) : Bool :=
  t.isWord (ascii "let") || t.isWord (ascii "var") || t.isWord (ascii "const")

/-- Reads a variable, a function or a class. -/
def declaration : Rule := fun call => do
  let keyword ← current
  if isBindingWord keyword then
    ParseM.advance
    binding .varDeclaration call
  else if keyword.isWord (ascii "function") then
    ParseM.advance
    callable .funcDeclaration (← expect .word) call
  else if keyword.isWord (ascii "class") then
    ParseM.advance
    let name ← expect .word
    let _ ← expect .leftBrace
    let members ← untilBrace (call "member")
    let _ ← expect .rightBrace
    return .named .classDeclaration name members
  else
    ParseM.raise .invalidSyntax

/-- Reads a private field or a method. -/
def member : Rule := fun call => do
  let t ← current
  match t.kind with
  | .hash =>
    ParseM.advance
    binding .privateField call
  | .word =>
    ParseM.advance
    callable .method t call
  | _ => ParseM.raise .unhandledToken

/-- Reads a parameter with its default value, if it has one. -/
def param (call : RuleCall Token Node) : Parse Node := do
  let name ← expect .word
  if ← ParseM.look (standsAt .eql) then
    ParseM.advance
    let value ← call "value"
    return .named .param name [value]
  else
    return .named .param name []

/-- Reads a comma and one more parameter, or the closing bracket. -/
def nextParam (call : RuleCall Token Node) : Parse (Option Node) := do
  let t ← current
  match t.kind with
  | .comma =>
    ParseM.advance
    return some (← param call)
  | .rightPrt =>
    ParseM.advance
    return none
  | _ => ParseM.raise .invalidSyntax

/-- Reads a list of parameters in brackets. -/
def args : Rule := fun call => do
  let _ ← expect .leftPrt
  if ← ParseM.look (standsAt .rightPrt) then
    ParseM.advance
    return .plain .args []
  else
    let first ← param call
    let others ← ParseM.collect (nextParam call)
    return .plain .args (first :: others)

/-- Reads declarations in braces. -/
def block : Rule := fun call => do
  let _ ← expect .leftBrace
  let declarations ← untilBrace (call "declaration")
  let _ ← expect .rightBrace
  return .plain .block declarations

/-- The kind of the literal that a token is. -/
def literalKind? (t : Token) : Option NodeKind :=
  match t.kind with
  | .num => some .numberLiteral
  | .str => some .stringLiteral
  | .word => if t.value = ascii "true" ∨ t.value = ascii "false" then some .boolLiteral else none
  | _ => none

/-- Reads a literal. -/
def value : Rule := fun _ => do
  let t ← current
  match literalKind? t with
  | some kind =>
    ParseM.advance
    return .named kind t []
  | none => ParseM.raise .unhandledToken

/-- The grammar of the declaration language. -/
def grammar : Grammar Token Node :=
  .ofRules "root" [("root", root), ("declaration", declaration), ("member", member), ("args", args),
    ("block", block), ("value", value)]

/-- Reads what the named rules read, one after another. -/
def sequence (names : List String) : Rule := fun call => do
  return .plain .root (← names.mapM call)

end LittleLang.Decl
