import LittleLang.Parse.Grammar
import LittleLang.Render.Stylesheet
import LittleLang.Scan.Lexicon

/-!
A language is a lexicon, a grammar and a stylesheet: its texts become tokens, a tree and bytes of
the language they are written in next.
-/
namespace LittleLang

/-- Why a text cannot be compiled. -/
inductive Fault where
  | lexical (fault : LexFault)
  /-- The tokens have no tree; the reading stopped at the token of that index. -/
  | syntactic (fault : ParseFault) (tokenIndex : Nat)
  | rendering (fault : RenderFault)
  deriving DecidableEq

namespace Fault

/-- The stage at which the fault arose. -/
def stage : Fault → String
  | .lexical _ => "lexer"
  | .syntactic _ _ => "parser"
  | .rendering _ => "transpiler"

/-- The report of the fault. -/
def message : Fault → String
  | .lexical fault => "Lexer Error: " ++ fault.message
  | .syntactic fault _ => "Parse Error: " ++ fault.message
  | .rendering fault => "Transpile Error: " ++ fault.message

/-- The report of the fault behind this one. A fault of the grammar is part of its own report and
stands behind none. -/
def source? : Fault → Option String
  | .lexical fault => some fault.message
  | .syntactic _ _ => none
  | .rendering fault => some fault.message

end Fault

instance : Inspect Fault where
  inspect
    | .lexical fault => .variant "Lex" [inspect fault]
    | .syntactic fault tokenIndex =>
      .record "Parse" [.field "error" (inspect fault), .field "token_index" (inspect tokenIndex)] true
    | .rendering fault => .variant "Render" [inspect fault]

/-- How the texts of a language are read and written. -/
structure Language (τ ν : Type) where
  lexicon : Lexicon τ
  grammar : Grammar τ ν
  stylesheet : Stylesheet ν

namespace Language

variable {τ ν : Type}

/-- The tokens of a text. -/
def tokenize (l : Language τ ν) (text : List UInt8) : Outcome Fault (List τ) :=
  Outcome.mapFault .lexical (l.lexicon.tokens text)

/-- The tree of a list of tokens. -/
def parse (l : Language τ ν) (tokens : List τ) : Outcome Fault ν :=
  let result := l.grammar.parse (.ofTokens tokens)
  Outcome.mapFault (.syntactic · result.2.position) result.1

variable [Branching ν]

/-- The bytes that a tree is written as. -/
def render (l : Language τ ν) (tree : ν) : Outcome Fault (List UInt8) :=
  Outcome.mapFault .rendering (l.stylesheet.render tree)

/-- The bytes that a text becomes. -/
def compile (l : Language τ ν) (text : List UInt8) : Outcome Fault (List UInt8) := do
  let tokens ← l.tokenize text
  let tree ← l.parse tokens
  l.render tree

end Language

instance {τ ν : Type} : Inspect (Language τ ν) where
  inspect l := .record "Frontend"
    [.field "lexer" (inspect l.lexicon), .field "parser" (inspect l.grammar),
      .field "transpiler" (inspect l.stylesheet)] true

end LittleLang
