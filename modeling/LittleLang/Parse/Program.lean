import LittleLang.Failure
import LittleLang.Parse.TokenStream

/-!
A parsing program reads tokens from a stream and may fail. The stream is kept when it fails, so
that a report can say how far the reading went.
-/
namespace LittleLang

/-- Why tokens have no tree. -/
inductive ParseFault where
  /-- The grammar has no rule of the name that it starts from. -/
  | rootRuleMissing (name : String)
  | nothingToParse
  /-- A rule calls another by a name that the grammar does not have. -/
  | ruleNotFound (name : String)
  | invalidSyntax
  /-- A token that fits nowhere, or one that is left over. -/
  | unhandledToken
  deriving DecidableEq

/-- The report of the fault. -/
def ParseFault.message : ParseFault → String
  | .rootRuleMissing name => "the root parser rule \x60" ++ name ++ "\x60 was not found"
  | .nothingToParse => "no tokens were given to parse"
  | .ruleNotFound name => "the parser rule \x60" ++ name ++ "\x60 was not found"
  | .invalidSyntax => "the syntax is invalid"
  | .unhandledToken => "unhandled token"

instance : Inspect ParseFault where
  inspect
    | .rootRuleMissing name => .variant "RootRuleMissing" [inspect name]
    | .nothingToParse => .atom "NothingToParse"
    | .ruleNotFound name => .variant "RuleNotFound" [inspect name]
    | .invalidSyntax => .atom "InvalidSyntax"
    | .unhandledToken => .atom "UnhandledToken"

/-- A program that reads tokens and may fail. -/
def ParseM (τ α : Type) := TokenStream τ → Outcome ParseFault α × TokenStream τ

namespace ParseM

variable {τ α β : Type}

instance : Monad (ParseM τ) where
  pure a := fun s => (.ok a, s)
  bind p f := fun s =>
    match p s with
    | (.ok a, next) => f a next
    | (.error failure, next) => (.error failure, next)

/-- Fails. -/
def fail (failure : Failure ParseFault) : ParseM τ α := fun s => (.error failure, s)

/-- Fails with a fault. -/
def raise (fault : ParseFault) : ParseM τ α := fail (.raised fault)

/-- What an observation says of the stream. -/
def look (observation : TokenStream τ → α) : ParseM τ α := fun s => (.ok (observation s), s)

/-- Loads the next token. -/
def advance : ParseM τ Unit := fun s => (.ok (), s.advance)

/-- Runs `p`, and `q` from where `p` stopped if `p` raises a fault. -/
def orElse (p q : ParseM τ α) : ParseM τ α := fun s =>
  match p s with
  | (.error (.raised _), next) => q next
  | result => result

/-- Collects what `step` returns until it returns nothing. A step that returns something and reads
no token would be repeated for ever. -/
def collect (step : ParseM τ (Option α)) : ParseM τ (List α) := fun s =>
  match step s with
  | (.error failure, next) => (.error failure, next)
  | (.ok none, next) => (.ok [], next)
  | (.ok (some a), next) =>
    if next.pending < s.pending then
      let later := collect step next
      ((a :: ·) <$> later.1, later.2)
    else (.error .endless, next)
termination_by s => s.pending

/-- Collects what `body` returns for as long as the stream satisfies the condition. -/
def collectWhile (condition : TokenStream τ → Bool) (body : ParseM τ α) : ParseM τ (List α) :=
  collect do
    if ← look condition then return some (← body) else return none

end ParseM

end LittleLang
