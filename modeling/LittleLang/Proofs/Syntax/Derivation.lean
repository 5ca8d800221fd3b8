import LittleLang.Decl.Node

/-!
# The grammar of the declaration language as a relation

    root        := declaration+
    declaration := ("let" | "var" | "const") NAME "=" value
                 | "function" NAME args block
                 | "class" NAME "{" member* "}"
    member      := "#" NAME "=" value
                 | NAME args block
    args        := "(" [param ("," param)*] ")"
    param       := NAME ["=" value]
    block       := "{" declaration* "}"
    value       := NUM | STR | "true" | "false"

Each relation below holds between the tokens of a phrase and its tree. Any word is a name, and a
terminal in quotes is a word of that spelling or a mark of that kind.
-/

namespace LittleLang.Decl

/-- The token is the word of that spelling. -/
def Token.Spells (t : Token) (spelling : String) : Prop := t.kind = .word ∧ t.value = ascii spelling

namespace Syntax

/-! ## Phrases without blocks -/

inductive Value : List Token → Node → Prop
  | number {t} : t.kind = .num → Value [t] (.named .numberLiteral t [])
  | string {t} : t.kind = .str → Value [t] (.named .stringLiteral t [])
  | boolean {t} : t.Spells "true" ∨ t.Spells "false" → Value [t] (.named .boolLiteral t [])

/-- `NAME "=" value`, with the name and the tree of the value. -/
inductive Binding : List Token → Token → Node → Prop
  | mk {name equals ts v} : name.kind = .word → equals.kind = .eql → Value ts v →
      Binding (name :: equals :: ts) name v

inductive Param : List Token → Node → Prop
  | bare {name} : name.kind = .word → Param [name] (.named .param name [])
  | withDefault {ts name v} : Binding ts name v → Param ts (.named .param name [v])

/-- `("," param)*`, with the trees of the parameters. -/
inductive MoreParams : List Token → List Node → Prop
  | none : MoreParams [] []
  | next {comma ts n us ns} : comma.kind = .comma → Param ts n → MoreParams us ns →
      MoreParams (comma :: (ts ++ us)) (n :: ns)

inductive Args : List Token → Node → Prop
  | none {opening closing} : opening.kind = .leftPrt → closing.kind = .rightPrt →
      Args [opening, closing] (.plain .args [])
  | some {opening ts n us ns closing} : opening.kind = .leftPrt → Param ts n → MoreParams us ns →
      closing.kind = .rightPrt →
      Args (opening :: (ts ++ (us ++ [closing]))) (.plain .args (n :: ns))

/-! ## Declarations, members and blocks -/

/-- The phrases that can stand inside one another. -/
inductive Phrase where
  | declaration
  | member
  | block

/-- A phrase of a text, as its tokens and its tree. -/
structure Part where
  tokens : List Token
  tree : Node

/-- `Derives phrase ts n`: the grammar derives the tokens `ts` from the phrase, with tree `n`. -/
inductive Derives : Phrase → List Token → Node → Prop
  | varDeclaration {keyword ts name v} :
      keyword.Spells "let" ∨ keyword.Spells "var" ∨ keyword.Spells "const" → Binding ts name v →
      Derives .declaration (keyword :: ts) (.named .varDeclaration name [v])
  | funcDeclaration {keyword name ts a us b} : keyword.Spells "function" → name.kind = .word →
      Args ts a → Derives .block us b →
      Derives .declaration (keyword :: name :: (ts ++ us)) (.named .funcDeclaration name [a, b])
  | classDeclaration {keyword name opening closing} {parts : List Part} : keyword.Spells "class" →
      name.kind = .word → opening.kind = .leftBrace →
      (∀ p ∈ parts, Derives .member p.tokens p.tree) → closing.kind = .rightBrace →
      Derives .declaration (keyword :: name :: opening :: (parts.flatMap Part.tokens ++ [closing]))
        (.named .classDeclaration name (parts.map Part.tree))
  | privateField {mark ts name v} : mark.kind = .hash → Binding ts name v →
      Derives .member (mark :: ts) (.named .privateField name [v])
  | method {name ts a us b} : name.kind = .word → Args ts a → Derives .block us b →
      Derives .member (name :: (ts ++ us)) (.named .method name [a, b])
  | block {opening closing} {parts : List Part} : opening.kind = .leftBrace →
      (∀ p ∈ parts, Derives .declaration p.tokens p.tree) → closing.kind = .rightBrace →
      Derives .block (opening :: (parts.flatMap Part.tokens ++ [closing]))
        (.plain .block (parts.map Part.tree))

/-- The grammar derives the tokens from the root, with the tree. -/
inductive Root : List Token → Node → Prop
  | mk {parts : List Part} : parts ≠ [] → (∀ p ∈ parts, Derives .declaration p.tokens p.tree) →
      Root (parts.flatMap Part.tokens) (.plain .root (parts.map Part.tree))

/-! ## Shape of phrases -/

theorem Derives.ne_nil {phrase ts n} (h : Derives phrase ts n) : ts ≠ [] := by
  cases h <;> simp

end Syntax

end LittleLang.Decl
