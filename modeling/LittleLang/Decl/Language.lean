import LittleLang.Decl.Lemmas.Layout
import LittleLang.Decl.Lemmas.Progress
import LittleLang.Decl.Lemmas.Tokens
import LittleLang.Language

/-!
The declaration language: its texts are compiled to Python. Its rules come to an end on every
input, so each stage has a plain result.
-/
namespace LittleLang.Decl

/-- The declaration language. -/
def language : Language Token Node := ⟨lexicon, grammar, stylesheet⟩

theorem tokenize_ends (text : List UInt8) : Outcome.Ends (language.tokenize text) :=
  (lexicon.tokens_ends lexicon_advances text).mapFault _

theorem parse_tokens_ends (tokens : List Token) : Outcome.Ends (language.parse tokens) :=
  (parse_ends (.ofTokens tokens)).mapFault _

theorem render_ends (tree : Node) : Outcome.Ends (language.render tree) :=
  (Stylesheet.render_ends stylesheet_descends tree).mapFault _

/-- The tokens of a text. -/
def tokenize (text : List UInt8) : Except Fault (List Token) :=
  Outcome.settle (language.tokenize text) (tokenize_ends text)

/-- The syntax tree of a list of tokens. -/
def parse (tokens : List Token) : Except Fault Node :=
  Outcome.settle (language.parse tokens) (parse_tokens_ends tokens)

/-- The Python text that a syntax tree is written as. -/
def render (tree : Node) : Except Fault (List UInt8) :=
  Outcome.settle (language.render tree) (render_ends tree)

/-- The Python text that a text becomes. -/
def compile (text : List UInt8) : Except Fault (List UInt8) := do
  let tokens ← tokenize text
  let tree ← parse tokens
  render tree

/-- What trees are written as in their order, with a separator between them. -/
def renderJoined (separator : List UInt8) (trees : List Node) : Except RenderFault (List UInt8) :=
  Outcome.settle (stylesheet.renderJoined separator trees)
    (joined_ends fun n _ => Stylesheet.render_ends stylesheet_descends n)

/-- The language whose texts are what the named rules of the grammar read, one after another. -/
def sequenceOf (names : List String) : Language Token Node :=
  { language with grammar := grammar.withRule "root" (sequence names) }

end LittleLang.Decl
