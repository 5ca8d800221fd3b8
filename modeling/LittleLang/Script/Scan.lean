import LittleLang.Scan.Lexicon

/-!
Lexicons written as data: what a rule does at its trigger is a list of steps.
-/
namespace LittleLang.Script

/-- One step of a scan. Steps write the bytes of a token. -/
inductive Step where
  | advance (times : Nat)
  | addLines (count : Nat)
  /-- Writes the loaded byte and stays. -/
  | push
  /-- Writes bytes that need not be in the text. -/
  | lit (bytes : List UInt8)
  /-- Passes the bytes of a class and writes them. -/
  | take (c : ByteClass)
  /-- Passes the bytes that trigger the rule and writes them. -/
  | takeTrigger

namespace Step

/-- What a step writes, and the scanner after it. -/
def run (trigger : ByteClass) (s : Scanner) : Step → List UInt8 × Scanner
  | .advance times => ([], Nat.repeat Scanner.advance times s)
  | .addLines count => ([], s.addLines count)
  | .push => ([s.byte], s)
  | .lit bytes => (bytes, s)
  | .take c => s.takeWhile c
  | .takeTrigger => s.takeWhile trigger

/-- What steps write one after another, and the scanner after them. -/
def runAll (trigger : ByteClass) : List Step → Scanner → List UInt8 × Scanner
  | [], s => ([], s)
  | step :: steps, s =>
    let first := step.run trigger s
    let later := runAll trigger steps first.2
    (first.1 ++ later.1, later.2)

end Step

/-- A token with the index of the rule that read it and the place where it begins. -/
structure Token where
  rule : Nat
  value : List UInt8
  position : Position
  deriving DecidableEq

/-- The rule of that index, with the given trigger and steps. -/
def tokenRule (index : Nat) (trigger : ByteClass) (steps : List Step) : TokenRule Token where
  trigger := trigger
  read s :=
    let result := Step.runAll trigger steps s
    (⟨index, result.1, s.position⟩, result.2)

/-- The blank rule with the given trigger and steps. What the steps write is dropped. -/
def blankRule (trigger : ByteClass) (steps : List Step) : BlankRule where
  trigger := trigger
  skip s := (Step.runAll trigger steps s).2

/-- The lexicon with the given triggers and steps. -/
def lexicon (blank : BlankRule) (rules : List (ByteClass × List Step)) : Lexicon Token where
  blank := blank
  rules := rules.mapIdx fun index rule => tokenRule index rule.1 rule.2

end LittleLang.Script
