import LittleLang.Inspect

/-!
A stream hands out tokens one by one, from the first to the last.
-/
namespace LittleLang

/-- A walk over tokens. No token is loaded until the first advance; from then on the first token of
`rest` is, and after the last token none is. -/
structure TokenStream (τ : Type) where
  /-- The tokens left behind, the last one first. -/
  passed : List τ
  /-- The tokens that lie ahead, the loaded one included. -/
  rest : List τ
  loaded : Bool

namespace TokenStream

variable {τ : Type}

/-- A stream before its first token. -/
def ofTokens (tokens : List τ) : TokenStream τ := ⟨[], tokens, false⟩

/-- All tokens, passed and to come. -/
def tokens (s : TokenStream τ) : List τ := s.passed.reverse ++ s.rest

/-- The index of the loaded token. -/
def position (s : TokenStream τ) : Nat := s.passed.length

/-- Whether tokens lie ahead. -/
def hasTokens (s : TokenStream τ) : Bool := !s.rest.isEmpty

/-- The loaded token. -/
def token? (s : TokenStream τ) : Option τ := if s.loaded then s.rest.head? else none

/-- Loads the next token. The first call loads the first token, and after the last token nothing
changes. -/
def advance (s : TokenStream τ) : TokenStream τ :=
  if s.loaded then
    match s.rest with
    | t :: rest => { s with passed := t :: s.passed, rest := rest }
    | [] => s
  else { s with loaded := true }

/-- How many advances are left that change something. -/
def pending (s : TokenStream τ) : Nat := s.rest.length + if s.loaded then 0 else 1

end TokenStream

instance {τ : Type} [Inspect τ] : Inspect (TokenStream τ) where
  inspect s := .record "Reader"
    [.field "tokens" (inspect s.tokens), .field "position" (inspect s.position),
      .field "loaded" (inspect s.loaded)] true

end LittleLang
