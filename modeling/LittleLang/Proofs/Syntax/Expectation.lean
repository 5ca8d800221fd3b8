import LittleLang.Decl.Grammar
import LittleLang.Proofs.Syntax.Derivation

/-!
# What the grammar expects next

`Awaits phrase ts w` says that the tokens `ts` begin a phrase without finishing it, and that `w`
describes the tokens that can come next. The relation follows the constructors of `Derives`, with a
case for each place at which a phrase can be left off.
-/

namespace LittleLang.Decl.Syntax

/-- What can come next: the tokens that fit, and the fault that another token is. -/
structure Wanted where
  admits : Token → Bool
  fault : ParseFault
  /-- Whether the tokens can end here. -/
  final : Bool

namespace Wanted

/-- A token of the given kind. -/
def kind (k : TokenKind) : Wanted := ⟨fun t => t.kind == k, .invalidSyntax, false⟩

def value : Wanted := ⟨fun t => (literalKind? t).isSome, .unhandledToken, false⟩

/-- The word that a declaration begins with. -/
def keyword : Wanted :=
  ⟨fun t => isBindingWord t || t.isWord (ascii "function") || t.isWord (ascii "class"),
    .invalidSyntax, false⟩

/-- The first token of a member. -/
def member : Wanted := ⟨fun t => t.kind == .hash || t.kind == .word, .unhandledToken, false⟩

/-- What fits `w`, or a token of the given kind. -/
def orKind (w : Wanted) (k : TokenKind) : Wanted :=
  { w with admits := fun t => w.admits t || t.kind == k }

/-- What fits `w`, or the end of the tokens. -/
def orEnd (w : Wanted) : Wanted := { w with final := true }

/-- After a parameter with its default value. -/
def afterParam : Wanted := (kind .comma).orKind .rightPrt

/-- After a parameter without a default value. -/
def afterName : Wanted := afterParam.orKind .eql

/-- Tokens that stop a reader who wants `w`, with the fault that is reported. An end that does not
fit is invalid syntax whatever is wanted. -/
def Refuses (w : Wanted) (fault : ParseFault) : List Token → Prop
  | [] => w.final = false ∧ fault = .invalidSyntax
  | t :: _ => w.admits t = false ∧ fault = w.fault

/-- What is wanted at some place of a text. Only as a value a number can come next, and only as the
first token of a member a hash. -/
inductive Occurs : Wanted → Prop
  | kind {k} : k ≠ .num ∧ k ≠ .hash → Occurs (.kind k)
  | value : Occurs .value
  | keyword : Occurs .keyword
  | member : Occurs .member
  | orKind {w k} : Occurs w → k ≠ .num ∧ k ≠ .hash → Occurs (w.orKind k)
  | orEnd {w} : Occurs w → Occurs w.orEnd

theorem Refuses.of_orKind {w : Wanted} {k fault ts} (h : (w.orKind k).Refuses fault ts) :
    w.Refuses fault ts := by
  cases ts with
  | nil => exact h
  | cons t ts => exact ⟨(Bool.or_eq_false_iff.mp h.1).1, h.2⟩

end Wanted

/-- What a phrase begins with. -/
def Phrase.start : Phrase → Wanted
  | .declaration => .keyword
  | .member => .member
  | .block => .kind .leftBrace

inductive AwaitsBinding : List Token → Wanted → Prop
  | name : AwaitsBinding [] (.kind .word)
  | equals {name} : name.kind = .word → AwaitsBinding [name] (.kind .eql)
  | value {name equals} : name.kind = .word → equals.kind = .eql →
      AwaitsBinding [name, equals] .value

/-- Within the parameters. A whole parameter is among the cases, since a default value, a further
parameter or the closing bracket can come next. -/
inductive AwaitsParam : List Token → Wanted → Prop
  | name : AwaitsParam [] (.kind .word)
  | value {name equals} : name.kind = .word → equals.kind = .eql →
      AwaitsParam [name, equals] .value
  | bare {name} : name.kind = .word → AwaitsParam [name] .afterName
  | withDefault {ts name v} : Binding ts name v → AwaitsParam ts .afterParam

/-- Within the parameters after the first one. -/
inductive AwaitsMore : List Token → Wanted → Prop
  | param {comma ts w} : comma.kind = .comma → AwaitsParam ts w → AwaitsMore (comma :: ts) w
  | later {comma ts n us w} : comma.kind = .comma → Param ts n → AwaitsMore us w →
      AwaitsMore (comma :: (ts ++ us)) w

inductive AwaitsArgs : List Token → Wanted → Prop
  | opening : AwaitsArgs [] (.kind .leftPrt)
  | first {opening} : opening.kind = .leftPrt →
      AwaitsArgs [opening] ((Wanted.kind .word).orKind .rightPrt)
  | param {opening ts w} : opening.kind = .leftPrt → AwaitsParam ts w → ts ≠ [] →
      AwaitsArgs (opening :: ts) w
  | more {opening ts n us w} : opening.kind = .leftPrt → Param ts n → AwaitsMore us w →
      AwaitsArgs (opening :: (ts ++ us)) w

inductive Awaits : Phrase → List Token → Wanted → Prop
  | keyword : Awaits .declaration [] .keyword
  | binding {keyword ts w} :
      keyword.Spells "let" ∨ keyword.Spells "var" ∨ keyword.Spells "const" → AwaitsBinding ts w →
      Awaits .declaration (keyword :: ts) w
  | functionName {keyword} : keyword.Spells "function" → Awaits .declaration [keyword] (.kind .word)
  | functionArgs {keyword name ts w} : keyword.Spells "function" → name.kind = .word →
      AwaitsArgs ts w → Awaits .declaration (keyword :: name :: ts) w
  | functionBlock {keyword name ts a us w} : keyword.Spells "function" → name.kind = .word →
      Args ts a → Awaits .block us w → Awaits .declaration (keyword :: name :: (ts ++ us)) w
  | className {keyword} : keyword.Spells "class" → Awaits .declaration [keyword] (.kind .word)
  | classOpening {keyword name} : keyword.Spells "class" → name.kind = .word →
      Awaits .declaration [keyword, name] (.kind .leftBrace)
  | classNext {keyword name opening} {parts : List Part} : keyword.Spells "class" →
      name.kind = .word → opening.kind = .leftBrace →
      (∀ p ∈ parts, Derives .member p.tokens p.tree) →
      Awaits .declaration (keyword :: name :: opening :: parts.flatMap Part.tokens)
        (Wanted.member.orKind .rightBrace)
  | classMember {keyword name opening} {parts : List Part} {ts w} : keyword.Spells "class" →
      name.kind = .word → opening.kind = .leftBrace →
      (∀ p ∈ parts, Derives .member p.tokens p.tree) → Awaits .member ts w → ts ≠ [] →
      Awaits .declaration (keyword :: name :: opening :: (parts.flatMap Part.tokens ++ ts)) w
  | member : Awaits .member [] .member
  | privateField {mark ts w} : mark.kind = .hash → AwaitsBinding ts w →
      Awaits .member (mark :: ts) w
  | methodArgs {name ts w} : name.kind = .word → AwaitsArgs ts w → Awaits .member (name :: ts) w
  | methodBlock {name ts a us w} : name.kind = .word → Args ts a → Awaits .block us w →
      Awaits .member (name :: (ts ++ us)) w
  | opening : Awaits .block [] (.kind .leftBrace)
  | blockNext {opening} {parts : List Part} : opening.kind = .leftBrace →
      (∀ p ∈ parts, Derives .declaration p.tokens p.tree) →
      Awaits .block (opening :: parts.flatMap Part.tokens) (Wanted.keyword.orKind .rightBrace)
  | blockDeclaration {opening} {parts : List Part} {ts w} : opening.kind = .leftBrace →
      (∀ p ∈ parts, Derives .declaration p.tokens p.tree) → Awaits .declaration ts w → ts ≠ [] →
      Awaits .block (opening :: (parts.flatMap Part.tokens ++ ts)) w

inductive AwaitsRoot : List Token → Wanted → Prop
  | next {parts : List Part} : (∀ p ∈ parts, Derives .declaration p.tokens p.tree) →
      AwaitsRoot (parts.flatMap Part.tokens) Wanted.keyword.orEnd
  | declaration {parts : List Part} {ts w} :
      (∀ p ∈ parts, Derives .declaration p.tokens p.tree) → Awaits .declaration ts w → ts ≠ [] →
      AwaitsRoot (parts.flatMap Part.tokens ++ ts) w

end LittleLang.Decl.Syntax
